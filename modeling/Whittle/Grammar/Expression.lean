import Whittle.Grammar.Types

/-!
# Expressions

An expression is a row of operands with operators between them. Which operator binds tighter is
not read, because only the end of an expression matters here: its last operand, or what stands
last inside of it. Where a name is followed by an opening angle, template arguments are tried
before a comparison; between angles a closing angle ends the expression.
-/

namespace Whittle.Grammar

open Read

section

variable (language : Language) (sub : Phrase → Read Row)

/-! ### Operators -/

/-- An operator that starts with a closing angle. -/
def closingAngleOperator : Read Row :=
  let tight (t : Token) := t.tight && t.isPunctIn [">", "="]
  punct ">" ++
    (notAhead tight <|> (ahead (·.tight) ++ punct ">" ++ notAhead tight) <|>
      (ahead (·.tight) ++ punct "=") <|>
      (ahead (·.tight) ++ punct ">" ++ ahead (·.tight) ++ punct "="))

def binaryOperators : List String :=
  ["||", "&&", "|", "^", "&", "==", "!=", "<", "<=", "<=>", "<<", "+", "-", "*", "/", "%", "->*"]

def assignmentOperators : List String :=
  ["=", "+=", "-=", "*=", "/=", "%=", "&=", "|=", "^=", "<<="]

/-- An operator between two operands. -/
def binaryOperator (angled : Bool) : Read Row :=
  punctIn binaryOperators <|> punctIn assignmentOperators <|>
    keywordIn (operatorWords language) <|>
    (if angled then refuse else closingAngleOperator) <|>
    (punct "?" ++ opt (sub .comma) ++ punct ":")

/-- Operators that may stand between folded operands. -/
def foldOperator : Read Row :=
  punctIn (binaryOperators ++ assignmentOperators ++ [",", ".*"]) <|> closingAngleOperator <|>
    keywordIn (operatorWords .cpp)

def expression (angled : Bool) : Read Row :=
  node .expression
    (sub .operand ++
      many ((binaryOperator language sub angled ++ sub .operand) <|>
        whenCpp language (punctIn assignmentOperators ++ sub .initializers)))

def comma : Read Row :=
  node .commaExpression (sepBy1 (sub (.expression false)) (punct ","))

/-! ### Names -/

/-- The spellings of operators in their names. -/
def operatorSpelling : Read Row :=
  let empty (opening closing : String) := punct opening ++ punct closing
  closingAngleOperator <|>
    punctIn (binaryOperators ++ assignmentOperators ++ ["~", "!", "++", "--", ",", "->"]) <|>
    empty "(" ")" <|> empty "[" "]" <|>
    keywordIn (operatorWords .cpp ++ ["not", "compl", "co_await"]) <|>
    (keywordIn ["new", "delete"] ++ opt (empty "[" "]")) <|>
    (silent (token (·.kind = .string)) ++ silent (name .identifier []))

def operatorName : Read Row := node .operatorName (keyword "operator" ++ operatorSpelling)

def destructorName : Read Row := node .destructorName (punct "~" ++ name .identifier [])

def templateFunction (reserved : List String) : Read Row :=
  node .templateFunction (name .identifier reserved ++ sub .templateArguments)

/-- A name that may stand in an expression. -/
def nameOperand : Read Row :=
  let reserved := operandWords language
  if language = .c then name .identifier reserved
  else
    withScopes sub reserved
      (templateFunction sub reserved <|> name .identifier reserved <|> operatorName) <|>
    node .qualifiedIdentifier (many1 (scope sub reserved) ++ destructorName)

/-! ### Literals -/

/-- A suffix of a literal, which C++ leaves to the program. -/
def literalSuffix : Read Row :=
  leaf .value fun t => t.kind = .word && t.tight

/-- Literals; strings and names in a row are one string. -/
def literal : Read Row :=
  let string := leaf .literal (·.kind = .string)
  let part := string <|> name .identifier (operandWords language ++ operatorWords language)
  let noString := notAhead fun t => t.kind = .string
  let plain := leaf .literal fun t => t.kind = .number || t.kind = .char || t.kind = .string
  let joinedString :=
    node .expression (((part ++ string) <|> (string ++ part)) ++ many part ++ noString)
  if language = .c then plain <|> joinedString
  else
    (plain ++ notAhead fun t => t.kind = .word && t.tight) <|>
      node .expression (plain ++ literalSuffix) <|> joinedString <|>
      node .expression (node .expression (part ++ string ++ many string) ++ literalSuffix)

/-! ### Operands -/

/-- The captures of a lambda are passed over. -/
def captures : Read Row := silent (group .value "[")

def requiresClause : Read Row :=
  node .requiresClause (keyword "requires" ++ sub .constraint)

def lambda : Read Row :=
  node .lambda
    (captures ++ opt (silent (sub .templateParameters) ++ opt (silent (requiresClause sub))) ++
      opt (inField .declarator (sub .lambdaDeclarator)) ++ inField .body (sub .block))

/-- One thing that is asked for. -/
def requirement : Read Row :=
  node .statement (opt (sub .comma) ++ punct ";") <|>
    node .statement (keyword "typename" ++ className language sub [] ++ opt (punct ";")) <|>
    node .statement
      (braces (sub (.expression false)) ++ opt (silent (keyword "noexcept")) ++
        opt (node .trailingReturnType (punct "->" ++ sub .typeDescriptor)) ++ punct ";")

def requiresExpression : Read Row :=
  node .requiresExpression
    (keyword "requires" ++ opt (sub .parameters) ++
      node .requirements (braces (many (requirement language sub))))

/-- The length of each dimension of a new array. -/
def newDeclarator : Read Row :=
  node .newDeclarator (many1 (punct "[" ++ sub (.expression false) ++ punct "]"))

def newExpression : Read Row :=
  node .newExpression
    (opt (punct "::") ++ keyword "new" ++ opt (sub .arguments) ++ sub .typeSpecifier ++
      opt (inField .declarator (newDeclarator sub)) ++
      opt (sub .arguments <|> sub .initializers))

/-- An expression folded over a pack. -/
def foldExpression : Read Row :=
  node .foldExpression
    (parens ((punct "..." ++ foldOperator ++ sub (.expression false)) <|>
      (sub (.expression false) ++ foldOperator ++ punct "...") <|>
      (sub (.expression false) ++ foldOperator ++ punct "..." ++ foldOperator ++
        sub (.expression false))))

/-- Words behind an opening parenthesis that start a type and no operand. -/
def startsOnlyType (t : Token) : Bool :=
  let types := typeWords language
  t.isWordIn types && !t.isWord "__extension__" &&
    (language = .c || !t.isWordIn ("decltype" :: primitiveWords))

def parenthesized : Read Row :=
  node .parenthesizedExpression
    (parens ((notAhead (startsOnlyType language) ++ sub .comma) <|> sub .block))

def genericExpression : Read Row :=
  node .genericExpression
    (keyword "_Generic" ++
      parens (sub (.expression false) ++ punct "," ++
        sepBy1 (sub .typeDescriptor ++ punct ":" ++ sub (.expression false)) (punct ",")))

def assemblyOperand : Read Row :=
  node .assemblyOperands
    (opt (punct "[" ++ name .identifier [] ++ punct "]") ++ leaf .literal (·.kind = .string) ++
      parens (sub (.expression false))) <|>
    leaf .literal (·.kind = .string) <|> name .identifier []

/-- Assembly code with its operands. -/
def assembly : Read Row :=
  node .assembly
    (keywordIn assemblyWords ++
      many (leafIn .typeQualifier ["volatile", "__volatile__", "inline", "goto"]) ++
      parens (many1 (leaf .literal (·.kind = .string)) ++
        many (node .assemblyOperands (punct ":" ++ sepBy (assemblyOperand sub) (punct ",")) <|>
          node .assemblyOperands
            (punct "::" ++ sepBy (assemblyOperand sub) (punct ",")))))

/-- An operand without what stands before and behind it. -/
def primary : Read Row :=
  leafIn .value (valueWords language) <|> nameOperand language sub <|> literal language <|>
    parenthesized language sub <|>
    node .compoundLiteral (parens (sub .typeDescriptor) ++ sub .initializers) <|>
    node .alignofExpression (keywordIn alignmentOfWords ++ parens (sub .typeDescriptor)) <|>
    node .offsetofExpression
      (keyword "offsetof" ++
        parens (sub .typeDescriptor ++ punct "," ++ name .fieldIdentifier [])) <|>
    genericExpression sub <|> assembly sub <|>
    whenCpp language
      (node .callExpression (leafIn .primitiveType primitiveWords ++ sub .arguments) <|>
        node .compoundLiteral
          ((leafIn .primitiveType primitiveWords <|>
              className language sub (operandWords language)) ++
            sub .initializers) <|>
        foldExpression sub <|> lambda sub <|> newExpression sub <|>
        requiresExpression language sub <|> requiresClause sub)

/-- The member that is asked for. -/
def memberName : Read Row :=
  if language = .c then name .fieldIdentifier []
  else
    withScopes sub ["template"]
      (node .templateFunction (name .fieldIdentifier ["template"] ++ sub .templateArguments) <|>
        name .fieldIdentifier ["template"]) <|>
    (keyword "template" ++
      node .templateFunction (name .fieldIdentifier [] ++ sub .templateArguments)) <|>
    destructorName <|>
    node .qualifiedIdentifier (many1 (scope sub []) ++ destructorName)

/-- What may stand behind an operand and makes a new one of it. -/
def suffix (operand : Row) : Read Row :=
  wrap .callExpression operand (sub .arguments) <|>
    (if language = .c then
      wrap .subscriptExpression operand (punct "[" ++ sub .comma ++ punct "]")
    else
      wrap .subscriptExpression operand
        (node .subscriptArguments
          (punct "[" ++ sepBy (sub (.expression false) <|> sub .initializers) (punct ",") ++
            punct "]"))) <|>
    wrap .fieldExpression operand
      (punctIn [".", "->", ".*"] ++ memberName language sub) <|>
    wrap .updateExpression operand (punctIn ["++", "--"]) <|>
    whenCpp language (wrap .packExpansion operand (punct "..."))

/-- An operand with the operators before it. -/
def operand : Read Row :=
  (primary language sub >>= iterate (suffix language sub)) <|>
    (punctIn ["-", "+", "!", "~", "*", "&", "&&", "++", "--"] ++ sub .operand) <|>
    (keyword "__extension__" ++ sub .operand) <|>
    node .sizeofExpression (keyword "sizeof" ++ sub .operand) <|>
    node .sizeofExpression (keyword "sizeof" ++ parens (sub .typeDescriptor)) <|>
    (parens (sub .typeDescriptor) ++ sub .operand) <|>
    whenCpp language
      (node .sizeofExpression (keyword "sizeof" ++ punct "..." ++ parens (name .identifier [])) <|>
        (keywordIn ["not", "compl", "co_await"] ++ sub .operand) <|>
        (opt (punct "::") ++ keyword "delete" ++ opt (punct "[" ++ punct "]") ++ sub .operand))

/-! ### Lists -/

def arguments : Read Row :=
  node .argumentList
    (parens (sepBy
      (sub (.expression false) <|> whenCpp language (sub .initializers) <|> sub .block)
      (punct ",")))

/-- Where in an object an initial value belongs. -/
def designator : Read Row :=
  node .initializerPair
    (punct "[" ++ sub (.expression false) ++ opt (punct "..." ++ sub (.expression false)) ++
      punct "]") <|>
    node .initializerPair (punct "." ++ name .fieldIdentifier [])

def initializers : Read Row :=
  let value := sub (.expression false) <|> sub .initializers
  node .initializerList
    (braces (sepBy
        (value <|>
          node .initializerPair (many1 (designator sub) ++ punct "=" ++ value) <|>
          node .initializerPair (name .fieldIdentifier [] ++ punct ":" ++ value))
        (punct ",") ++
      opt (punct ",")))

def templateArguments : Read Row :=
  node .templateArguments
    (punct "<" ++
      sepBy
        (sub .typeDescriptor <|>
          node .packExpansion (sub .typeDescriptor ++ punct "...") <|> sub (.expression true))
        (punct ",") ++
      punct ">")

/-! ### Requirements -/

/-- What a template or a function asks of its arguments. -/
def constraint : Read Row :=
  let one :=
    leafIn .value ["true", "TRUE", "false", "FALSE"] <|> foldExpression sub <|>
      requiresExpression language sub <|> lambda sub <|> parens (sub .comma) <|>
      className language sub (operandWords language)
  node .expression (one ++ many ((punctIn ["&&", "||"] <|> keywordIn ["and", "or"]) ++ one))

end

end Whittle.Grammar
