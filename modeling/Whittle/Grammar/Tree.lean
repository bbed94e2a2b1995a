/-!
# Trees of source text

A `Tree` has a kind, the text of the leaf if it is one, the rows on which it starts and ends, and
children in source order. A child may stand in a field of its parent. Trees built here leave out
mere punctuation, which is not `named`.
-/

namespace Whittle.Grammar

inductive Kind where
  -- items and statements
  | sourceUnit
  | functionDefinition
  | linkageSpecification
  | declarationList
  | namespaceDefinition
  | templateDeclaration
  | declaration
  | statement
  | compoundStatement
  | tryStatement
  -- types
  | classSpecifier
  | structSpecifier
  | unionSpecifier
  | enumSpecifier
  | fieldDeclarationList
  | enumeratorList
  | enumerator
  | primitiveType
  | sizedType
  | typeIdentifier
  | templateType
  | placeholderType
  | computedType
  | dependentType
  | macroType
  | typeDescriptor
  | typeQualifier
  | storageClass
  | attribute
  -- names
  | identifier
  | fieldIdentifier
  | namespaceIdentifier
  | qualifiedIdentifier
  | templateFunction
  | templateArguments
  | operatorName
  | destructorName
  -- declarators
  | pointerDeclarator
  | referenceDeclarator
  | functionDeclarator
  | arrayDeclarator
  | parenthesizedDeclarator
  | attributedDeclarator
  | variadicDeclarator
  | initDeclarator
  | structuredBinding
  | memberPointer
  | abstractPointerDeclarator
  | abstractReferenceDeclarator
  | abstractFunctionDeclarator
  | abstractArrayDeclarator
  | abstractParenthesizedDeclarator
  | parameterList
  | parameterDeclaration
  | optionalParameterDeclaration
  | variadicParameterDeclaration
  | variadicParameter
  -- what follows the parameters of a function
  | exceptionSpecification
  | trailingReturnType
  | requiresClause
  | tailWord
  -- expressions
  | literal
  | value
  | expression
  | commaExpression
  | parenthesizedExpression
  | foldExpression
  | callExpression
  | subscriptExpression
  | subscriptArguments
  | fieldExpression
  | updateExpression
  | packExpansion
  | argumentList
  | compoundLiteral
  | initializerList
  | initializerPair
  | sizeofExpression
  | alignofExpression
  | offsetofExpression
  | genericExpression
  | assembly
  | assemblyOperands
  | newExpression
  | newDeclarator
  | lambda
  | requiresExpression
  | requirements
  -- what may stand anywhere
  | comment
  deriving DecidableEq, Repr, Inhabited

namespace Kind

/-- The declarations of parameters; a bare ellipsis declares none. -/
def isParameter : Kind → Bool
  | parameterDeclaration => true
  | optionalParameterDeclaration => true
  | variadicParameterDeclaration => true
  | _ => false

/-- Scopes whose functions are not where a program starts. -/
def isNestedScope : Kind → Bool
  | compoundStatement => true
  | fieldDeclarationList => true
  | namespaceDefinition => true
  | classSpecifier => true
  | structSpecifier => true
  | unionSpecifier => true
  | templateDeclaration => true
  | _ => false

end Kind

inductive Field where
  | type
  | declarator
  | parameters
  | body
  | size
  | value
  deriving DecidableEq, Repr

inductive Tree where
  | node (kind : Kind) (named : Bool) (field : Option Field) (text : String)
      (startRow endRow : Nat) (children : List Tree)
  deriving Inhabited

namespace Tree

def kind : Tree → Kind
  | node k _ _ _ _ _ _ => k

def named : Tree → Bool
  | node _ n _ _ _ _ _ => n

def field : Tree → Option Field
  | node _ _ f _ _ _ _ => f

def text : Tree → String
  | node _ _ _ t _ _ _ => t

def startRow : Tree → Nat
  | node _ _ _ _ a _ _ => a

def endRow : Tree → Nat
  | node _ _ _ _ _ b _ => b

def children : Tree → List Tree
  | node _ _ _ _ _ _ cs => cs

/-- The first child in a field. -/
def child? (t : Tree) (f : Field) : Option Tree := t.children.find? fun c => c.field = some f

def namedChildren (t : Tree) : List Tree := t.children.filter named

/-- The tree as a child in a field; a comment stands in no field. -/
def inField (f : Field) : Tree → Tree
  | node k n g t a b cs => node k n (if k = .comment then g else some f) t a b cs

/-- A tree from its first to its last row. -/
def branch (k : Kind) (startRow endRow : Nat) (cs : List Tree) : Tree :=
  node k true none "" startRow endRow cs

end Tree

end Whittle.Grammar
