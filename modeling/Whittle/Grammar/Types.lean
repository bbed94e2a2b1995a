import Whittle.Grammar.Reading

/-!
# Types

What stands before a declarator: modifiers, and among them one type. A name before two colons is
always a scope of what follows, and in C++ a name of a type before an opening angle always has
template arguments. Behind a type, `auto` makes it the constraint of a placeholder.
-/

namespace Whittle.Grammar

open Read

section

variable (language : Language) (sub : Phrase → Read Row)

/-- Two brackets without a blank between them. -/
def doubled (text : String) : Read Row :=
  punct text ++ ahead (fun t => t.tight) ++ punct text

def attributeSpecifier : Read Row :=
  node .attribute (keywordIn attributeWords ++ punct "(" ++ sub .arguments ++ punct ")")

/-- One attribute of a list: a name, possibly with a scope before it, and arguments. -/
def listedAttribute : Read Row :=
  node .attribute
    (opt (leaf .namespaceIdentifier (fun t => t.kind = .word) ++ punct "::") ++
      name .identifier [] ++ opt (sub .arguments))

/-- A list of attributes in doubled brackets. -/
def attributeList : Read Row :=
  node .attribute
    (doubled "[" ++ sepBy1 (listedAttribute sub) (punct ",") ++ doubled "]")

def alignment : Read Row :=
  node .typeQualifier
    (keywordIn alignmentWords ++
      parens (sub (.expression false) <|> sub .typeDescriptor))

def qualifier : Read Row := leafIn .typeQualifier (qualifierWords language)

def modifier : Read Row :=
  leafIn .storageClass (storageWords language) <|> qualifier language <|>
    attributeSpecifier sub <|> attributeList sub <|> alignment sub <|>
    node .attribute (keyword "__declspec" ++ parens (name .identifier []))

/-! ### Names of types -/

def templateType (reserved : List String) : Read Row :=
  node .templateType (name .typeIdentifier reserved ++ sub .templateArguments)

/-- The type of an expression. -/
def computedType : Read Row :=
  node .computedType (keyword "decltype" ++ parens (sub (.expression false)))

/-- What may stand before two colons, with them. -/
def scope (reserved : List String) : Read Row :=
  opt (name .namespaceIdentifier reserved <|> templateType sub reserved <|> computedType sub <|>
      (keyword "template" ++ templateType sub reserved)) ++
    punct "::"

def notScope : Read Row := notAhead fun t => t.isPunct "::"

/-- A name with scopes before it, or without. -/
def withScopes (reserved : List String) (last : Read Row) : Read Row :=
  (last ++ notScope) <|>
    node .qualifiedIdentifier
      (many1 (scope sub reserved) ++ (last <|> (keyword "template" ++ last)) ++ notScope)

/-- The name of a class: template arguments behind it belong to it. -/
def className (reserved : List String) : Read Row :=
  if language = .c then name .typeIdentifier reserved
  else
    withScopes sub reserved
      (templateType sub reserved <|>
        (name .typeIdentifier reserved ++ notAhead fun t => t.isPunct "<"))

/-! ### Classes and enumerations -/

/-- The members of a class are passed over. -/
def members : Read Row := group .fieldDeclarationList "\x7b"

def tagKind (word : String) : Kind :=
  if word = "struct" then .structSpecifier
  else if word = "union" then .unionSpecifier
  else .classSpecifier

/-- The words that are no names behind the word that starts a class. -/
def tagReserved : List String := attributeWords ++ alignmentWords ++ ["__declspec"]

/-- The tokens between a colon and the members. -/
def bases : Read Row :=
  punct ":" ++ many (silent (token fun t => !t.isPunctIn ["\x7b", ";"] && t.kind ≠ .finish))

def classSpecifier (word : String) : Read Row :=
  let declspec := node .attribute (keyword "__declspec" ++ parens (name .identifier []))
  let noMembers := notAhead fun t => t.isPunct "\x7b"
  let sealed := leafIn .tailWord ["final", "override"]
  node (tagKind word)
    (keyword word ++ many (attributeSpecifier sub <|> alignment sub) ++ opt declspec ++
      many (attributeList sub) ++
      (if language = .c then
        (name .typeIdentifier tagReserved ++ (members <|> noMembers)) <|> members
      else
        (opt (className language sub tagReserved) ++ opt sealed ++ opt bases ++ members) <|>
          (className language sub tagReserved ++ noMembers)) ++
      opt (attributeSpecifier sub))

def enumeratorTree : Read Row :=
  node .enumerator (name .identifier [] ++ opt (punct "=" ++ sub (.expression false)))

def enumerators : Read Row :=
  orIfNone
    (node .enumeratorList
      (braces (sepBy (enumeratorTree sub) (punct ",") ++ opt (punct ","))))
    members

def enumSpecifier : Read Row :=
  node .enumSpecifier
    (whenC language (keyword "enum") ++ many (attributeSpecifier sub) ++
      ((name .typeIdentifier attributeWords ++ opt (punct ":" ++ leafIn .primitiveType primitiveWords) ++
          (enumerators sub <|> notAhead fun t => t.isPunct "\x7b")) <|>
        enumerators sub) ++
      opt (attributeSpecifier sub)) <|>
  whenCpp language
    (node .enumSpecifier
      (keyword "enum" ++ opt (keywordIn ["class", "struct"]) ++ many (attributeSpecifier sub) ++
        many (attributeList sub) ++
        ((className language sub attributeWords ++
            opt (punct ":" ++
              (many1 (leafIn .primitiveType (sizeWords ++ primitiveWords)) <|>
                className language sub primitiveWords)) ++
            (enumerators sub <|> notAhead fun t => t.isPunct "\x7b")) <|>
          enumerators sub) ++
        opt (attributeSpecifier sub)))

/-! ### Types -/

/-- A type whose size or sign is said; a name of a type may stand with the words that say it. -/
def sizedType : Read Row :=
  let sizes := many1 (leafIn .sizedType sizeWords)
  let primitive := leafIn .primitiveType primitiveWords
  let noSize := notAhead fun t => t.isWordIn (sizeWords ++ primitiveWords)
  node .sizedType
    ((sizes ++ noSize) <|> (sizes ++ primitive ++ many (leafIn .sizedType sizeWords)) <|>
      (primitive ++ sizes ++ noSize) <|>
      (name .typeIdentifier (typeWords language) ++ sizes ++ noSize) <|>
      (sizes ++ many (qualifier language) ++
        (primitive <|> name .typeIdentifier (typeWords language))))

/-- A word that stands for a type, and in parentheses what it stands for. -/
def macroType : Read Row :=
  node .macroType (name .identifier (typeWords language) ++ parens (sub .typeDescriptor))

/-- A type that is no placeholder. -/
def plainType : Read Row :=
  let noSize := notAhead fun t => t.isWordIn sizeWords
  classSpecifier language sub "struct" <|> classSpecifier language sub "union" <|>
    whenCpp language (classSpecifier language sub "class") <|> enumSpecifier language sub <|>
    sizedType language <|> (leafIn .primitiveType primitiveWords ++ noSize) <|>
    (className language sub (typeWords language) ++ noSize) <|>
    whenC language (macroType language sub) <|>
    whenCpp language
      ((computedType sub ++ notScope) <|>
        node .dependentType (keyword "typename" ++ sub .typeSpecifier))

/-- The word that leaves a type to be found. -/
def placeholder : Read Row :=
  leafIn .value ["auto"] <|> node .computedType (keyword "decltype" ++ parens (keyword "auto"))

def startsPlaceholder (t : Token) : Bool := t.isWordIn ["auto", "decltype"]

def typeSpecifier : Read Row :=
  if language = .c then plainType language sub
  else
    (plainType language sub ++ notAhead startsPlaceholder) <|>
      node .placeholderType (opt (plainType language sub) ++ placeholder)

/-- The specifiers of a declaration, with its type in a field. -/
def specifiers : Read Row :=
  many (modifier language sub) ++ inField .type (sub .typeSpecifier) ++
    many (modifier language sub)

def typeDescriptor : Read Row :=
  node .typeDescriptor
    (many (qualifier language) ++ inField .type (sub .typeSpecifier) ++
      many (qualifier language) ++ opt (inField .declarator (sub .abstractDeclarator)))

end

end Whittle.Grammar
