import Whittle.Grammar.Token
import Whittle.Grammar.Tree
import Whittle.Grammar.Words

/-!
# Readings

The grammars of C and C++ are ambiguous, and what a word means may depend on much later text. A
`Read` therefore gives every way to read the front of some tokens: what was read, and the tokens
left. The preferred way comes first. `settle` keeps one way for each place where readings end;
`many` follows repeated reading to every place it reaches.

Most readers give a `Row`, the trees that stand side by side. Rows are joined by `++`, and `node`
makes a row the children of one tree. A comment before punctuation is a tree of the row; comments
elsewhere never come last and are left out.
-/

namespace Whittle.Grammar

/-! ## Brackets: what follows the one that closes, and what follows a semicolon -/

/-- The tokens behind the bracket that closes the one before; `depth` brackets inside are still
open. -/
def behindBracket : Nat → List Token → Option (List Token)
  | _, [] => none
  | depth, t :: ts =>
    if t.opens then behindBracket (depth + 1) ts
    else if t.closes then
      match depth with
      | 0 => some ts
      | depth + 1 => behindBracket depth ts
    else behindBracket depth ts

/-- The tokens behind the next semicolon; `depth` brackets are open before. -/
def behindSemicolon : Nat → List Token → Option (List Token)
  | _, [] => none
  | depth, t :: ts =>
    if t.opens then behindSemicolon (depth + 1) ts
    else if t.closes then
      match depth with
      | 0 => none
      | depth + 1 => behindSemicolon depth ts
    else if depth = 0 && t.isPunct ";" then some ts
    else behindSemicolon depth ts

/-! ## Readers -/

def Read (α : Type) : Type := List Token → List (α × List Token)

/-- Trees that stand side by side. -/
abbrev Row := List Tree

/-- What `readPhrase` can read: the parts of the grammar that contain each other. -/
inductive Phrase where
  /-- An expression without commas; between angles a closing angle ends it. -/
  | expression (angled : Bool)
  /-- An operand with the operators before it. -/
  | operand
  /-- Expressions separated by commas. -/
  | comma
  | arguments
  | initializers
  | templateArguments
  | templateParameters
  | typeSpecifier
  | typeDescriptor
  /-- A declarator around a name. -/
  | declarator (place : DeclaratorPlace)
  /-- A declarator without a name. -/
  | abstractDeclarator
  | parameters
  /-- The parameters and the tail of a declarator of a function. -/
  | lambdaDeclarator
  /-- What a clause of requirements asks for. -/
  | constraint
  | statement
  | block
  deriving DecidableEq, Repr

namespace Read

instance : Monad Read where
  pure a := fun ts => [(a, ts)]
  bind p f := fun ts => (p ts).flatMap fun r => f r.1 r.2

instance : OrElse (Read Row) where
  orElse p q := fun ts => p ts ++ q () ts

instance : Append (Read Row) where
  append p q := fun ts => (p ts).flatMap fun r => (q r.2).map fun s => (r.1 ++ s.1, s.2)

/-- Reads nothing. -/
def skip : Read Row := fun ts => [([], ts)]

/-- Cannot read. -/
def refuse : Read Row := fun _ => []

/-- How many tokens follow the first one, which tells the places of a text apart. -/
def placeOf (ts : List Token) : Nat := (ts.head?.map Token.left).getD 0

/-- The first reading for each place where one ends. -/
def settled : List (Row × List Token) → List (Row × List Token)
  | [] => []
  | r :: rs => r :: (settled rs).filter fun s => placeOf s.2 ≠ placeOf r.2

def settle (p : Read Row) : Read Row := fun ts => settled (p ts)

/-- Reads by `q` only what `p` cannot read. -/
def orIfNone (p q : Read Row) : Read Row := fun ts =>
  match p ts with
  | [] => q ts
  | rs => rs

def opt (p : Read Row) : Read Row := p <|> skip

/-- Only in C++. -/
def whenCpp (language : Language) (p : Read Row) : Read Row :=
  if language = .cpp then p else refuse

/-- Only in C. -/
def whenC (language : Language) (p : Read Row) : Read Row :=
  if language = .c then p else refuse

/-- Adds to the readings `found` what steps reach from those that are `fresh`. -/
def reach (step : Row → Read Row) : Nat → List (Row × List Token) → List (Row × List Token) →
    List (Row × List Token)
  | 0, found, _ => found
  | n + 1, found, fresh =>
    match fresh with
    | [] => found
    | _ :: _ =>
      let next := settled (fresh.flatMap fun r => step r.1 r.2)
      let next := next.filter fun r => found.all fun s => placeOf s.2 ≠ placeOf r.2
      reach step n (next ++ found) next

/-- What any number of steps makes of a row. -/
def iterate (step : Row → Read Row) (start : Row) : Read Row := fun ts =>
  reach step (placeOf ts + 1) [(start, ts)] [(start, ts)]

def many (p : Read Row) : Read Row := iterate (fun row => (row ++ ·) <$> p) []

def many1 (p : Read Row) : Read Row := p ++ many p

def sepBy1 (p separator : Read Row) : Read Row := p ++ many (separator ++ p)

def sepBy (p separator : Read Row) : Read Row := opt (sepBy1 p separator)

/-- Reads nothing where the next token is as it should be. -/
def ahead (test : Token → Bool) : Read Row := fun ts =>
  match ts with
  | t :: _ => if test t then [([], ts)] else []
  | [] => []

def notAhead (test : Token → Bool) : Read Row := ahead fun t => !test t

def commentBefore (t : Token) : Row :=
  if t.commented then [.branch .comment t.lastRow t.row []] else []

/-- Reads a token that is no tree of its own. -/
def token (test : Token → Bool) : Read Row := fun ts =>
  match ts with
  | t :: rest => if test t then [(commentBefore t, rest)] else []
  | [] => []

def punct (text : String) : Read Row := token fun t => t.isPunct text

def punctIn (texts : List String) : Read Row := token fun t => t.isPunctIn texts

def keyword (text : String) : Read Row := token fun t => t.isWord text

def keywordIn (texts : List String) : Read Row := token fun t => t.isWordIn texts

/-- Reads a token as a leaf. -/
def leaf (k : Kind) (test : Token → Bool) : Read Row := fun ts =>
  match ts with
  | t :: rest => if test t then [([.node k true .none t.text t.row t.endRow []], rest)] else []
  | [] => []

def leafIn (k : Kind) (texts : List String) : Read Row := leaf k fun t => t.isWordIn texts

/-- Reads a word that has no other meaning as a name. -/
def name (k : Kind) (reserved : List String) : Read Row :=
  leaf k fun t => t.kind = .word && !reserved.contains t.text

/-- The tree of a row that starts at the first of some tokens and ends before the rest. -/
def joined (k : Kind) (ts rest : List Token) (row : Row) : Tree :=
  let first := (ts.head?.map Token.row).getD 0
  .branch k first (max first ((rest.head?.map Token.lastRow).getD 0)) row

/-- Makes what was read the children of one tree. -/
def node (k : Kind) (p : Read Row) : Read Row := fun ts =>
  (p ts).map fun r => ([joined k ts r.2 r.1], r.2)

/-- Makes a row and what is read behind it the children of one tree. -/
def wrap (k : Kind) (row : Row) (p : Read Row) : Read Row := fun ts =>
  (p ts).map fun r =>
    let whole := joined k ts r.2 (row ++ r.1)
    ([.branch k ((row.head?.map Tree.startRow).getD whole.startRow) whole.endRow
      whole.children], r.2)

def inField (f : Field) (p : Read Row) : Read Row := fun ts =>
  (p ts).map fun r => (r.1.map (Tree.inField f), r.2)

/-- Reads without giving trees. -/
def silent (p : Read Row) : Read Row := fun ts => (p ts).map fun r => ([], r.2)

/-- Reads a bracket, what stands in it and the one that closes it as a tree without children. -/
def group (k : Kind) (opening : String) : Read Row := fun ts =>
  match ts with
  | t :: rest =>
    if t.isPunct opening then
      match behindBracket 0 rest with
      | some behind => [([joined k ts behind []], behind)]
      | .none => []
    else []
  | [] => []

def parens (p : Read Row) : Read Row := punct "(" ++ p ++ punct ")"

def braces (p : Read Row) : Read Row := punct "\x7b" ++ p ++ punct "\x7d"

theorem settled_subset (rs : List (Row × List Token)) : settled rs ⊆ rs := by
  induction rs with
  | nil => simp [settled]
  | cons r rs ih =>
    intro s h
    rcases List.mem_cons.1 h with rfl | h
    · simp
    · exact List.mem_cons_of_mem _ (ih (List.mem_filter.1 h).1)

theorem settled_places (rs : List (Row × List Token)) :
    (settled rs).Pairwise fun r s => placeOf r.2 ≠ placeOf s.2 := by
  induction rs with
  | nil => simp [settled]
  | cons r rs ih =>
    refine List.pairwise_cons.2 ⟨fun s h => ?_, ih.filter _⟩
    exact fun e => of_decide_eq_true (List.mem_filter.1 h).2 e.symm

end Read

end Whittle.Grammar
