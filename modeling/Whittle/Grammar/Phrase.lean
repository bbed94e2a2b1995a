import Whittle.Grammar.Declarator

/-!
# Phrases

`readStep` ties the parts of the grammar together: it says how each phrase is read, given how the
phrases inside are. `readings` goes through the tokens from the last to the first and says of each
place what every phrase reads there. A reading is found out when it is first asked for and kept, so
that no phrase is read twice at one place from another place; phrases that stand at the place of
the phrase around them take one unit of fuel each.

Statements matter where a body stands inside of an expression. Of a statement that could declare
something and could be an expression, a name behind a type is taken for a declaration, and
parentheses behind a name for a call.
-/

namespace Whittle.Grammar

/-! ## Statements -/

open Read

section

variable (language : Language) (sub : Phrase → Read Row)

/-- A declarator with its initial value. -/
def initDeclarator : Read Row :=
  let declared := inField .declarator (sub (.declarator .type))
  let value := sub (.expression false) <|> sub .initializers
  (opt callWord ++ sub (.declarator .type) ++ opt (assembly sub)) <|>
    node .initDeclarator (declared ++ punct "=" ++ value) <|>
    whenCpp language (node .initDeclarator (declared ++ (sub .arguments <|> sub .initializers)))

/-- A declaration whose first declarator starts as it should. -/
def declaration (starts : Token → Bool) : Read Row :=
  let declared := inField .declarator (initDeclarator language sub)
  node .declaration
    (specifiers language sub ++ ahead starts ++ sepBy1 declared (punct ",") ++ punct ";")

def startsGroup (t : Token) : Bool := t.isPunctIn ["(", "["]

/-- What stands in parentheses before a statement is passed over. -/
def condition : Read Row := silent (group .value "(")

def handler : Read Row := node .statement (keyword "catch" ++ silent condition ++ sub .block)

/-- Handlers behind a body that is tried. -/
def tried (body : Read Row) : Read Row :=
  keyword "try" ++ body ++ many1 (handler sub)

/-- A statement that starts with a word of its own. -/
def wordStatement : Read Row :=
  (keyword "if" ++ opt (keyword "constexpr") ++ condition ++ sub .statement ++
      opt (keyword "else" ++ sub .statement)) <|>
    (keywordIn ["while", "for", "switch"] ++ condition ++ sub .statement) <|>
    (keyword "do" ++ sub .statement ++ keyword "while" ++
      node .parenthesizedExpression (parens (sub .comma)) ++ punct ";") <|>
    (keyword "return" ++ opt (sub .comma <|> whenCpp language (sub .initializers)) ++ punct ";") <|>
    (keywordIn ["break", "continue", "__leave"] ++ punct ";") <|>
    (keyword "goto" ++ name .fieldIdentifier [] ++ punct ";") <|>
    (keyword "case" ++ sub (.expression false) ++ punct ":" ++ many (sub .statement)) <|>
    (keyword "default" ++ punct ":" ++ many (sub .statement)) <|>
    (keyword "__try" ++ sub .block ++
      ((keyword "__except" ++ condition ++ sub .block) <|> (keyword "__finally" ++ sub .block))) <|>
    whenCpp language
      (tried sub (sub .block) <|>
        (keywordIn ["throw", "co_return", "co_yield"] ++ opt (sub .comma) ++ punct ";"))

/-- A declaration that is passed over up to its semicolon. -/
def passedDeclaration : Read Row := fun ts =>
  match behindSemicolon 0 ts with
  | some rest => [([joined .declaration ts rest []], rest)]
  | .none => []

def statement : Read Row := fun ts =>
  match ts with
  | [] => []
  | t :: _ =>
    if t.isWordIn (statementWords language) then node .statement (wordStatement language sub) ts
    else if t.isWordIn ["typedef", "using", "static_assert"] then
      passedDeclaration ts
    else if t.isPunct "\x7b" then sub .block ts
    else
      (declaration language sub (fun t => !startsGroup t) <|>
        (notAhead (startsOnlyType language) ++
          node .statement (opt (sub .comma) ++ punct ";")) <|>
        declaration language sub startsGroup <|>
        node .declaration (specifiers language sub ++ punct ";") <|>
        node .statement (name .fieldIdentifier [] ++ punct ":" ++ sub .statement) <|>
        node .statement (many1 (attributeList sub) ++ sub .statement)) ts

/-- A body whose statements are left out. -/
def passedBlock : Read Row := group .compoundStatement "\x7b"

/-- A body in braces. One that holds what is not read here is passed over. -/
def block : Read Row :=
  orIfNone (node .compoundStatement (braces (many (sub .statement)))) passedBlock

end

/-! ## Every phrase -/

def readStep (language : Language) (sub : Phrase → Read Row) : Phrase → Read Row
  | .expression angled => expression language sub angled
  | .operand => operand language sub
  | .comma => comma sub
  | .arguments => arguments language sub
  | .initializers => initializers sub
  | .templateArguments => templateArguments sub
  | .templateParameters => templateParameters language sub
  | .typeSpecifier => typeSpecifier language sub
  | .typeDescriptor => typeDescriptor language sub
  | .declarator place => declarator language sub place
  | .abstractDeclarator => abstractDeclarator language sub
  | .parameters => parameters language sub
  | .lambdaDeclarator => lambdaDeclarator language sub
  | .constraint => constraint language sub
  | .statement => statement language sub
  | .block => block sub

def Phrase.all : List Phrase :=
  [.expression false, .expression true, .operand, .comma, .arguments, .initializers,
   .templateArguments, .templateParameters, .typeSpecifier, .typeDescriptor, .declarator .type,
   .declarator .star, .declarator .ampersand, .declarator .parenthesis, .abstractDeclarator,
   .parameters, .lambdaDeclarator, .constraint, .statement, .block]

theorem Phrase.mem_all (p : Phrase) : p ∈ Phrase.all := by
  cases p with
  | expression angled => cases angled <;> decide
  | declarator place => cases place <;> decide
  | _ => decide

/-- What the phrases read at a place. -/
abbrev PlaceReadings := Thunk (List (Phrase × Thunk (List (Row × List Token))))

/-- The readings of a phrase at the place behind which `left` tokens follow, among those of `count`
places, the last of which is the end of the text. -/
def readingsAt (later : List PlaceReadings) (count left : Nat) (phrase : Phrase) :
    List (Row × List Token) :=
  match (later.drop (count - (left + 1))).head? with
  | some here => ((here.get.find? fun r => r.1 = phrase).map fun r => r.2.get).getD []
  | none => []

/-- What a phrase reads at a place behind which `count` others follow. -/
def readHere (language : Language) (later : List PlaceReadings) (count : Nat) :
    Nat → Phrase → List Token → List (Row × List Token)
  | 0, _, _ => []
  | fuel + 1, phrase, ts =>
    let sub (inner : Phrase) (us : List Token) : List (Row × List Token) :=
      if Read.placeOf us < count then readingsAt later count (Read.placeOf us) inner
      else readHere language later count fuel inner us
    Read.settle (readStep language sub phrase) ts

/-- How deep phrases can stand in each other at one place. -/
def depthHere : Nat := 32

def readings (language : Language) : List Token → List PlaceReadings
  | [] => []
  | t :: ts =>
    let later := readings language ts
    let here : PlaceReadings := Thunk.mk fun _ =>
      Phrase.all.map fun p =>
        (p, Thunk.mk fun _ => readHere language later t.left depthHere p (t :: ts))
    here :: later

/-- Reads a phrase at any place of a text, all of whose readings are given. -/
def readPhrase (all : List PlaceReadings) (count : Nat) (phrase : Phrase) (ts : List Token) :
    List (Row × List Token) :=
  readingsAt all count (Read.placeOf ts) phrase

end Whittle.Grammar
