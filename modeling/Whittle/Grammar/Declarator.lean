import Whittle.Grammar.Expression

/-!
# Declarators

A declarator is built around a name, or, where a parameter is declared, possibly around nothing:
then it is abstract. Behind a type, parentheses that could hold a list of parameters do hold one;
only otherwise do they group a declarator.
-/

namespace Whittle.Grammar

open Read

section

variable (language : Language) (sub : Phrase → Read Row)

/-! ### Pointers and arrays -/

/-- A star with what qualifies it. -/
def star : Read Row :=
  opt (node .attribute (keyword "__based" ++ sub .arguments)) ++ punct "*" ++
    many (leafIn .typeQualifier pointerWords) ++ many (qualifier language)

/-- Brackets that hold more than names and commas. -/
def holdsMore : Read Row := fun ts =>
  let inside := (ts.drop 1).takeWhile fun t => !t.closes
  if inside.all fun t => t.kind = .word || t.isPunct "," then [] else [([], ts)]

/-- The size of an array, in its brackets. What is neither a size nor the names of a binding is
passed over. -/
def size : Read Row :=
  (punct "[" ++ many (qualifier language <|> keyword "static") ++
      opt (inField .size (sub (.expression false)) <|> punct "*") ++ punct "]") <|>
    (holdsMore ++ silent (group .value "["))

def callWord : Read Row := leafIn .tailWord callWords

/-! ### Names -/

/-- A pointer to a member behind the class: what it names counts as a type. -/
def memberPointer : Read Row :=
  node .memberPointer
    (star language sub ++
      inField .declarator (name .typeIdentifier (reservedAt language .star) <|> memberGroup))
where
  /-- A name in parentheses. -/
  memberGroup : Read Row :=
    node .parenthesizedDeclarator (parens (name .typeIdentifier (reservedAt language .parenthesis)))

/-- The name that is declared. -/
def declaredName (place : DeclaratorPlace) : Read Row :=
  let reserved := reservedAt language place
  if language = .c then name .identifier reserved
  else
    withScopes sub reserved
      (templateFunction sub reserved <|>
        (name .identifier reserved ++ notAhead fun t => t.isPunct "<") <|> operatorName <|>
        destructorName) <|>
    node .qualifiedIdentifier (many1 (scope sub reserved) ++ memberPointer language sub) <|>
    node .structuredBinding
      (punct "[" ++ sepBy1 (name .identifier []) (punct ",") ++ punct "]")

/-! ### The tail of a function -/

def exceptionSpecification : Read Row :=
  node .exceptionSpecification
    (keyword "noexcept" ++ opt (parens (opt (sub (.expression false))))) <|>
    node .exceptionSpecification
      (keyword "throw" ++ parens (sepBy (sub .typeDescriptor) (punct ",")))

def trailingReturnType : Read Row :=
  node .trailingReturnType (punct "->" ++ sub .typeDescriptor)

/-- What may stand last behind the parameters of a function. -/
def tailEnd : Read Row :=
  many1 (leafIn .tailWord ["final", "override"]) <|> requiresClause sub

/-- What may stand behind the parameters of a function in C++. Lists of attributes at the end
belong to the function in a declarator only where something else of the function follows. -/
def functionTail (abstract : Bool) : Read Row :=
  let attributes := many (attributeSpecifier sub)
  let listed := many1 (attributeList sub)
  attributes ++ many (qualifier language) ++ opt (leaf .tailWord fun t => t.isPunctIn ["&", "&&"]) ++
    opt (exceptionSpecification sub) ++ opt (assembly sub) ++ attributes ++
    ((opt (trailingReturnType sub) ++ opt (tailEnd sub)) <|>
      (listed ++ trailingReturnType sub ++ opt (tailEnd sub)) <|>
      (listed ++ tailEnd sub) <|>
      (if abstract then listed else refuse))

/-- Whether parameters are mere names, which may be declared behind them. -/
def namesOnly (parameters : Row) : Bool :=
  parameters.all fun list =>
    list.children.all fun p =>
      p.kind = .comment || p.kind = .variadicParameter ||
        (p.kind = .parameterDeclaration && p.children.map Tree.kind = [.typeIdentifier])

/-- Words behind the parameters of a function in C. They are names, whatever they mean elsewhere,
but where declarations of the parameters may follow they cannot start one. -/
def wordTail (parameters : Row) : Read Row :=
  let reserved := attributeWords ++ assemblyWords ++
    (if namesOnly parameters then typeWords .c else [])
  opt (assembly sub) ++
    many (attributeSpecifier sub <|>
      node .callExpression (name .identifier reserved ++ sub .arguments) <|>
      (name .identifier reserved ++ notAhead fun t => t.isPunct "("))

/-! ### Declarators -/

/-- The parameters and what follows them. -/
def functionPart (abstract : Bool) : Read Row := do
  let parameters ← inField .parameters (sub .parameters)
  let tail ←
    if language = .cpp then functionTail language sub abstract
    else if abstract then skip else wordTail sub parameters
  pure (parameters ++ tail)

/-- Doubled brackets start attributes. -/
def notAttributes : Read Row := fun ts =>
  match ts with
  | _ :: t :: _ => if t.isPunct "[" && t.tight then [] else [([], ts)]
  | _ => [([], ts)]

/-- Parameters, a size or attributes behind a declarator. -/
def declaratorStep (inner : Row) : Read Row :=
  let declared := inner.map (Tree.inField .declarator)
  wrap .functionDeclarator declared (functionPart language sub false) <|>
    wrap .arrayDeclarator declared (notAttributes ++ size language sub) <|>
    wrap .attributedDeclarator inner (many1 (attributeList sub))

def declarator (place : DeclaratorPlace) : Read Row :=
  node .pointerDeclarator (star language sub ++ inField .declarator (sub (.declarator .star))) <|>
    whenCpp language
      (node .referenceDeclarator (punctIn ["&", "&&"] ++ sub (.declarator .ampersand))) <|>
    ((declaredName language sub place <|>
        node .parenthesizedDeclarator (parens (opt callWord ++ sub (.declarator .parenthesis)))) >>=
      iterate (declaratorStep language sub))

/-- The same for a declarator that names nothing, of which there may be nothing yet. -/
def abstractStep (inner : Row) : Read Row :=
  let declared := inner.map (Tree.inField .declarator)
  wrap .abstractFunctionDeclarator declared (functionPart language sub true) <|>
    wrap .abstractArrayDeclarator declared (notAttributes ++ size language sub)

def abstractDeclarator : Read Row :=
  node .abstractPointerDeclarator
    (star language sub ++ opt (inField .declarator (sub .abstractDeclarator))) <|>
  whenCpp language
    (node .abstractReferenceDeclarator (punctIn ["&", "&&"] ++ opt (sub .abstractDeclarator))) <|>
  ((abstractStep language sub [] <|>
      node .abstractParenthesizedDeclarator (parens (opt callWord ++ sub .abstractDeclarator))) >>=
    iterate (abstractStep language sub))

def lambdaDeclarator : Read Row :=
  wrap .abstractFunctionDeclarator [] (functionPart language sub true)

/-! ### Parameters -/

def variadicDeclarator : Read Row :=
  node .variadicDeclarator (punct "..." ++ opt (name .identifier []))

/-- The declarator of a pack of parameters. -/
def packDeclarator : Read Row :=
  variadicDeclarator <|>
    node .referenceDeclarator (punctIn ["&", "&&"] ++ variadicDeclarator)

/-- One parameter; between angles a closing angle ends its default value. A bare ellipsis is no
tree in C++. -/
def parameter (angled : Bool) : Read Row :=
  let named := inField .declarator (sub .abstractDeclarator <|> sub (.declarator .type))
  let default :=
    punct "=" ++ inField .value (sub (.expression angled) <|> sub .initializers)
  (if language = .c then leaf .variadicParameter fun t => t.isPunct "..." else punct "...") <|>
    node .parameterDeclaration
      (specifiers language sub ++ opt named ++ many (attributeSpecifier sub)) <|>
    whenCpp language
      (node .optionalParameterDeclaration (specifiers language sub ++ opt named ++ default) <|>
        node .optionalParameterDeclaration
          (specifiers language sub ++ silent (punct "&=") ++
            inField .value (sub (.expression angled))) <|>
        node .variadicParameterDeclaration
          (specifiers language sub ++ inField .declarator packDeclarator))

def parameters : Read Row :=
  node .parameterList (parens (sepBy (parameter language sub false) (punct ",")))

/-- A parameter of a template that stands for a type. -/
def typeParameter : Read Row :=
  let default := punct "=" ++ sub .typeSpecifier
  node .parameterDeclaration
    (opt (keyword "template" ++ sub .templateParameters) ++ keywordIn ["typename", "class"] ++
      opt (punct "...") ++ opt (name .typeIdentifier []) ++ opt default)

def templateParameters : Read Row :=
  node .parameterList
    (punct "<" ++ sepBy (typeParameter sub <|> parameter language sub true) (punct ",") ++
      punct ">")

end

end Whittle.Grammar
