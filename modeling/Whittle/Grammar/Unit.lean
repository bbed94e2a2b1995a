import Whittle.Grammar.Phrase
import Whittle.Grammar.Scan

/-!
# Source units

`sourceUnit` reads a source text as a row of items. A definition of a function is read down to
its declarator, and its body is passed over as one tree without children; so are classes,
namespaces and initial values. Branches of conditionals stand one behind the other.
-/

namespace Whittle.Grammar

open Read

section

variable (language : Language) (sub : Phrase → Read Row)

/-! ### Definitions of functions -/

/-- The initial values of members between a colon and a body. -/
def memberInitializers : Read Row :=
  let initializer :=
    className language sub [] ++ (sub .arguments <|> sub .initializers) ++ opt (punct "...")
  silent (punct ":" ++ sepBy1 initializer (punct ","))

/-- A body that is tried, with its handlers. -/
def triedBody (initial : Read Row) : Read Row :=
  let handler := keyword "catch" ++ condition ++ passedBlock
  node .tryStatement (keyword "try" ++ initial ++ silent (passedBlock ++ many1 handler))

/-- The body of a function. -/
def functionBody : Read Row :=
  inField .body (passedBlock <|> whenCpp language (triedBody skip))

/-- The definition of a function of some type. -/
def typedDefinition : Read Row :=
  node .functionDefinition
    (opt callWord ++ specifiers language sub ++ opt callWord ++
      inField .declarator (sub (.declarator .type)) ++ functionBody language)

/-- The definition of a function in C whose parameters are declared behind their names. -/
def oldDefinition : Read Row :=
  let names := sepBy (name .identifier (typeWords .c) <|>
    leaf .variadicParameter fun t => t.isPunct "...") (punct ",")
  let declarator := do
    let inner ← sub (.declarator .type)
    wrap .functionDeclarator (inner.map (Tree.inField .declarator))
      (inField .parameters (node .parameterList (parens names)))
  node .functionDefinition
    (opt callWord ++ specifiers language sub ++ inField .declarator declarator ++
      many (declaration language sub fun _ => true) ++ inField .body passedBlock)

/-- What may stand before a function without a type. -/
def untypedFront : Read Row :=
  many (modifier language sub <|>
    (keyword "explicit" ++ opt (parens (sub (.expression false)))))

/-- The definition of a function that turns an object into one of another type. -/
def conversionDefinition : Read Row :=
  let converter := withScopes sub []
    (node .operatorName
      (keyword "operator" ++ specifiers language sub ++ opt (sub .abstractDeclarator)))
  node .functionDefinition
    (untypedFront language sub ++ inField .declarator converter ++ functionBody language)

/-- The definition of a function that makes or ends an object. -/
def untypedDefinition : Read Row :=
  let initial := opt (memberInitializers language sub)
  node .functionDefinition
    (untypedFront language sub ++ inField .declarator (sub (.declarator .type)) ++
      ((initial ++ inField .body passedBlock) <|> triedBody initial))

def functionDefinition : Read Row :=
  if language = .c then oldDefinition language sub <|> typedDefinition language sub
  else
    conversionDefinition language sub <|> typedDefinition language sub <|>
      untypedDefinition language sub

end

/-! ### Items -/

/-- Whether braces behind a token hold the body of a function. -/
def endsHead (t : Token) : Bool :=
  t.isPunctIn [")", "&", "&&"] ||
    t.isWordIn ["const", "volatile", "mutable", "noexcept", "override", "try"]

/-- What follows an item that is not read: it ends with a semicolon or with the body of a
function. -/
def behindItem : Nat → Token → List Token → List Token
  | 0, _, ts => ts
  | _, _, [] => []
  | fuel + 1, last, t :: ts =>
    if t.kind = .finish || t.closes then t :: ts
    else if t.isPunct ";" then ts
    else if t.isPunct "=" then (behindSemicolon 0 ts).getD []
    else if t.opens then
      match behindBracket 0 ts with
      | some rest =>
        if t.isPunct "\x7b" && endsHead last then rest
        else behindItem fuel { t with text := ")" } rest
      | .none => []
    else behindItem fuel t ts

/-- An item that is passed over. -/
def passedItem (kind : Kind) (t : Token) (ts : List Token) : Tree × List Token :=
  let rest := behindItem (t.left + 1) t ts
  (joined kind ts rest [], rest)

/-- The first way to read some tokens as one tree. -/
def firstReading (p : Read Row) (ts : List Token) : Option (Tree × List Token) :=
  match p ts with
  | ([t], rest) :: _ => some (t, rest)
  | _ => none

mutual

/-- One item at the front, where a token stands that ends no list of items. -/
def item (language : Language) (sub : Phrase → Read Row) : Nat → Token → List Token →
    Tree × List Token
  | 0, t, ts => passedItem .declaration t ts
  | fuel + 1, t, ts =>
    let behind := ts.drop 1
    let isStatement := t.isWordIn (statementWords language) || t.isPunct "\x7b" ||
      t.isPunct ";"
    if isStatement then
      let read := if t.isPunct "\x7b" then passedBlock else sub .statement
      (firstReading read ts).getD (passedItem .statement t ts)
    else if t.kind = .word && (behind.head?.any fun u => u.isPunct ":") then
      (joined .statement ts (behind.drop 1) [], behind.drop 1)
    else if t.isWord "extern" && (behind.head?.any fun u => u.kind = .string) then
      let inside := behind.drop 1
      match inside with
      | [] => (joined .linkageSpecification ts [] [], [])
      | u :: within =>
        if u.isPunct "\x7b" then
          let r := items language sub fuel within
          let rest := r.2.drop 1
          (joined .linkageSpecification ts rest
            [(joined .declarationList inside rest r.1).inField .body], rest)
        else
          let r := (firstReading (typedDefinition language sub) inside).getD
            (passedItem .declaration u inside)
          (joined .linkageSpecification ts r.2 [r.1.inField .body], r.2)
    else if language = .cpp && t.isWord "template" then
      let head := keyword "template" ++ silent (sub .templateParameters) ++
        opt (silent (requiresClause sub))
      let defined := node .templateDeclaration (head ++ functionDefinition language sub)
      match firstReading defined ts, head ts with
      | some r, _ => r
      | .none, (_, u :: rest) :: _ =>
        let r := item language sub fuel u (u :: rest)
        (joined .templateDeclaration ts r.2 [r.1], r.2)
      | .none, _ => passedItem .templateDeclaration t ts
    else if language = .cpp &&
        (t.isWord "namespace" ||
          (t.isWord "inline" && behind.head?.any fun u => u.isWord "namespace")) then
      let inside := behind.dropWhile fun u =>
        !u.isPunctIn ["\x7b", ";", "="] && u.kind ≠ .finish
      match firstReading passedBlock inside with
      | some (b, rest) => (joined .namespaceDefinition ts rest [b.inField .body], rest)
      | .none => passedItem .declaration t ts
    else if t.isWord "typedef" ||
        (language = .cpp && t.isWordIn ["using", "static_assert", "concept"]) then
      passedItem .declaration t ts
    else
      (firstReading (functionDefinition language sub) ts).getD (passedItem .declaration t ts)

/-- The items up to a closing brace or the end. -/
def items (language : Language) (sub : Phrase → Read Row) : Nat → List Token →
    List Tree × List Token
  | 0, ts => ([], ts)
  | fuel + 1, ts =>
    match ts with
    | [] => ([], [])
    | t :: behind =>
      if t.isPunct "\x7d" || t.kind = .finish then ([], ts)
      else if t.closes then items language sub fuel behind
      else
        let r := item language sub fuel t ts
        let more := items language sub fuel r.2
        (r.1 :: more.1, more.2)

end

/-- The tree of a source text. -/
def sourceUnit (language : Language) (source : String) : Tree :=
  let ts := tokens language source
  let sub := readPhrase (readings language ts) (Read.placeOf ts + 1)
  joined .sourceUnit ts [] (items language sub (8 * ts.length + 16) ts).1

end Whittle.Grammar
