import Whittle.Proofs.Recipe.Filling
import Whittle.Text.Numeral

/-!
# Tokens of a command

How a shell cuts a command into words and operators, before it does anything else with it. The
rules are those of a POSIX shell for quoting, for operators, for blanks and for comments. `tokensOf`
follows them on pieces, so that a template can be read as well as a command.

There is no answer where a shell would do more than cut: where a dollar or a backquote begins an
expansion, where a here-document begins, and where a quotation is left open. And there is none for
a hole at which data might be more than letters of one word. Arguments may have any characters, so
for them that is everywhere but between single quotes.
-/

namespace Whittle.Template

open Text

/-- A character of a word or a hole in it. -/
structure Letter where
  piece : Piece
  quoted : Bool
  deriving DecidableEq, Repr

inductive Token where
  | word (letters : List Letter)
  /-- The number of a file that is redirected. -/
  | number (digits : List Char)
  | operator (cs : List Char)
  deriving DecidableEq, Repr

/-- The token that is being read. -/
inductive Part where
  | nothing
  /-- `marked` if something in it has been quoted, be it nothing at all. -/
  | word (letters : List Letter) (marked : Bool)
  | operator (cs : List Char)
  deriving DecidableEq, Repr

/-- How the next character is to be read. -/
inductive State where
  | bare (part : Part)
  | escape (part : Part)
  | single (letters : List Letter)
  | double (letters : List Letter)
  | doubleEscape (letters : List Letter)
  | comment
  deriving DecidableEq, Repr

def operators : List (List Char) :=
  [['\n'], ['&'], ['&', '&'], ['('], [')'], [';'], [';', ';'], ['|'], ['|', '|'], ['<'], ['<', '<'],
   ['<', '&'], ['<', '>'], ['>'], ['>', '>'], ['>', '&'], ['>', '|']]

def isOperator (cs : List Char) : Bool := operators.contains cs

def hereDocument : List Char := ['<', '<']

def Letter.isDigit (l : Letter) : Bool :=
  match l.piece with
  | .char c => Text.isDigit c
  | .hole _ => false

def Letter.isHole (l : Letter) : Bool :=
  match l.piece with
  | .char _ => false
  | .hole _ => true

def Letter.char? (l : Letter) : Option Char :=
  match l.piece with
  | .char c => some c
  | .hole _ => none

namespace Part

/-- What ends where a word goes on or begins. -/
def ended : Part → List Token
  | .operator cs => [.operator cs]
  | _ => []

def letters : Part → List Letter
  | .word letters _ => letters
  | _ => []

def marked : Part → Bool
  | .word _ marked => marked
  | _ => false

def isWord : Part → Bool
  | .word _ _ => true
  | _ => false

def add (part : Part) (letters : List Letter) : Part :=
  .word (part.letters ++ letters) (part.marked || letters.any Letter.quoted)

/-- The operator with one more character. -/
def extend (c : Char) : Part → Option (List Char)
  | .operator cs => if isOperator (cs ++ [c]) then some (cs ++ [c]) else none
  | _ => none

/-- What ends here. A word of digits is a number where it is redirected; whether the data of a hole
is one is not known. -/
def close (redirected : Bool) : Part → Option (List Token)
  | .nothing => some []
  | .operator cs => some [.operator cs]
  | .word letters marked =>
    if redirected && !marked && letters.all fun l => l.isDigit || l.isHole then
      if letters.all Letter.isDigit then some [.number (letters.filterMap Letter.char?)] else none
    else some [.word letters]

end Part

/-- One more character that is not in a quotation. -/
def stepBare (part : Part) (c : Char) : Option (List Token × State) :=
  if c = '\'' then some (part.ended, .single part.letters)
  else if c = '"' then some (part.ended, .double part.letters)
  else if c = '\\' then some ([], .escape part)
  else if c = '$' || c = '`' then none
  else if c = ' ' || c = '\t' then (part.close false).map fun ts => (ts, .bare .nothing)
  else if isOperator [c] then
    match part.extend c with
    | some cs => if cs = hereDocument then none else some ([], .bare (.operator cs))
    | none =>
      (part.close (c = '<' || c = '>')).map fun ts => (ts, .bare (.operator [c]))
  else if c = '#' && !part.isWord then some (part.ended, .comment)
  else some (part.ended, .bare (part.add [⟨.char c, false⟩]))

/-- One more character between double quotes. -/
def stepDouble (letters : List Letter) (c : Char) : Option (List Token × State) :=
  if c = '"' then some ([], .bare (.word letters true))
  else if c = '\\' then some ([], .doubleEscape letters)
  else if c = '$' || c = '`' then none
  else some ([], .double (letters ++ [⟨.char c, true⟩]))

/-- The tokens that end with one more piece, and how to go on. -/
def step : State → Piece → Option (List Token × State)
  | .bare part, .char c => stepBare part c
  | .bare part, .hole p =>
    if p = .arguments then none else some (part.ended, .bare (part.add [⟨.hole p, false⟩]))
  | .escape part, .char c =>
    if c = '\n' then some ([], .bare part)
    else some (part.ended, .bare (part.add [⟨.char c, true⟩]))
  | .single letters, .char c =>
    if c = '\'' then some ([], .bare (.word letters true))
    else some ([], .single (letters ++ [⟨.char c, true⟩]))
  | .single letters, .hole p => some ([], .single (letters ++ [⟨.hole p, true⟩]))
  | .double letters, .char c => stepDouble letters c
  | .double letters, .hole p =>
    if p = .arguments then none else some ([], .double (letters ++ [⟨.hole p, true⟩]))
  | .doubleEscape letters, .char c =>
    if c = '\n' then some ([], .double letters)
    else if ['$', '`', '"', '\\'].contains c then
      some ([], .double (letters ++ [⟨.char c, true⟩]))
    -- before any other character the backslash stands for itself
    else some ([], .double (letters ++ [⟨.char '\\', true⟩, ⟨.char c, true⟩]))
  | .comment, .char c =>
    if c = '\n' then some ([], .bare (.operator [c])) else some ([], .comment)
  | _, .hole _ => none

def run : State → List Piece → Option (List Token × State)
  | s, [] => some ([], s)
  | s, piece :: ps => do
    let (ts, s') ← step s piece
    let (us, s'') ← run s' ps
    return (ts ++ us, s'')

def State.finish : State → Option (List Token)
  | .bare part => part.close false
  | .comment => some []
  | _ => none

/-- The tokens of a template. -/
def tokensOf (ps : List Piece) : Option (List Token) := do
  let (ts, s) ← run (.bare .nothing) ps
  let us ← s.finish
  return ts ++ us

/-- The tokens of a command. -/
def tokens (command : String) : Option (List Token) := tokensOf (command.toList.map .char)

inductive Kind where
  | word
  | number (digits : List Char)
  | operator (cs : List Char)
  deriving DecidableEq, Repr

def Token.kind : Token → Kind
  | .word _ => .word
  | .number digits => .number digits
  | .operator cs => .operator cs

example : (tokens "a 'b \"\\'c 2>>d&&e;# f").map (List.map Token.kind) =
    some [.word, .word, .number ['2'], .operator ['>', '>'], .word, .operator ['&', '&'], .word,
      .operator [';']] := by
  decide +kernel

def Token.letters : Token → List Letter
  | .word letters => letters
  | _ => []

/-! ## Runs -/

section

variable {s s' s'' : State} {piece : Piece} {ps qs : List Piece} {ts us : List Token}

theorem run_nil : run s [] = some ([], s) := rfl

theorem run_cons (h : step s piece = some (ts, s')) (h' : run s' ps = some (us, s'')) :
    run s (piece :: ps) = some (ts ++ us, s'') := by
  simp [run, h, h']

theorem run_cons_cases {vs : List Token} (h : run s (piece :: ps) = some (vs, s'')) :
    ∃ ts s' us, step s piece = some (ts, s') ∧ run s' ps = some (us, s'') ∧ vs = ts ++ us := by
  rw [run] at h
  obtain ⟨⟨ts, s'⟩, hstep, h⟩ := Option.bind_eq_some_iff.mp h
  obtain ⟨⟨us, t⟩, hrun, h⟩ := Option.bind_eq_some_iff.mp h
  cases h
  exact ⟨ts, s', us, hstep, hrun, rfl⟩

theorem run_append (h : run s ps = some (ts, s')) (h' : run s' qs = some (us, s'')) :
    run s (ps ++ qs) = some (ts ++ us, s'') := by
  induction ps generalizing s ts with
  | nil => cases h; exact h'
  | cons piece ps ih =>
    obtain ⟨vs, t, ws, hstep, hrun, rfl⟩ := run_cons_cases h
    rw [List.cons_append, run_cons hstep (ih hrun), List.append_assoc]

theorem tokensOf_eq_some (h : run (.bare .nothing) ps = some (ts, s)) (h' : s.finish = some us) :
    tokensOf ps = some (ts ++ us) := by
  simp [tokensOf, h, h']

theorem tokensOf_cases {vs : List Token} (h : tokensOf ps = some vs) :
    ∃ ts s us, run (.bare .nothing) ps = some (ts, s) ∧ s.finish = some us ∧ vs = ts ++ us := by
  obtain ⟨⟨ts, s⟩, hrun, h⟩ := Option.bind_eq_some_iff.mp h
  obtain ⟨us, hfinish, h⟩ := Option.bind_eq_some_iff.mp h
  cases h
  exact ⟨ts, s, us, hrun, hfinish, rfl⟩

end

end Whittle.Template
