import Whittle.Shell.Octets

/-!
# Scripts

A `Word` keeps apart what was quoted and what was not, and holds its expansions unexpanded. A
`Command` is the tree of a script. Scripts are written in one of two dialects: the plain one, and the
one that adds arrays, conditional and arithmetic commands, and more expansions to it.
-/

namespace Whittle.Shell

inductive Dialect where
  | plain
  | rich
  deriving DecidableEq, Repr, Inhabited

mutual

inductive Piece where
  | char (c : Char) (quoted : Bool)
  /-- Quotes: the word is there even if it is empty. -/
  | quotes
  /-- The home directory of the user named, or the own one. -/
  | home (user : Octets)
  | parameter (name : String) (subscript : Option Subscript) (use : Use) (quoted : Bool)
  /-- What commands write. -/
  | output (body : List Command) (quoted : Bool)
  | arithmetic (expression : List Piece) (quoted : Bool)
  /-- A file that commands write or read. -/
  | channel (reads : Bool) (body : List Command)

/-- Which elements of an array are meant. -/
inductive Subscript where
  /-- All of them, in one text if they are joined. -/
  | all (joined : Bool)
  | element (index : List Piece)

/-- What is done with a parameter. `emptyToo` makes an empty value count as none. -/
inductive Use where
  | value
  | length
  | orElse (emptyToo : Bool) (word : List Piece)
  | orAssign (emptyToo : Bool) (word : List Piece)
  | orFail (emptyToo : Bool) (word : List Piece)
  | ifSet (emptyToo : Bool) (word : List Piece)
  | dropFront (longest : Bool) (pattern : List Piece)
  | dropBack (longest : Bool) (pattern : List Piece)
  /-- The part from an offset on, of a length if there is one. -/
  | part (offset : List Piece) (length : Option (List Piece))
  /-- `anchor` says that the match has to be at the front, or at the back. -/
  | replace (all : Bool) (anchor : Option Bool) (pattern replacement : List Piece)
  /-- Change the case of the letters that a pattern accepts: of the first, or of all. -/
  | recase (kind : Char) (all : Bool) (pattern : List Piece)
  /-- A use of the parameter that the value names. -/
  | indirect (use : Use)
  /-- The subscripts of an array. -/
  | keys
  /-- The names of variables that start alike. -/
  | named (joined : Bool)
  | transform (operator : Char)
  /-- Nothing that can be done. -/
  | impossible

inductive Redirection where
  | read (stream : Option Nat) (file : List Piece)
  | write (stream : Option Nat) (append clobber : Bool) (file : List Piece)
  | readWrite (stream : Option Nat) (file : List Piece)
  | here (stream : Option Nat) (content : List Piece)
  /-- A line given in place. -/
  | line (stream : Option Nat) (content : List Piece)
  /-- Let a stream go where another one goes, or close it. -/
  | same (stream : Nat) (other : List Piece)
  /-- Output and errors alike. -/
  | both (append : Bool) (file : List Piece)
  /-- A redirection of a stream that is not used yet, or of the one that a variable holds. -/
  | named (name : String) (redirection : Redirection)

inductive Assignment where
  | set (name : String) (index : Option (List Piece)) (append : Bool) (value : List Piece)
  | array (name : String) (append : Bool) (elements : List (Option (List Piece) × List Piece))

/-- A question of a conditional command. -/
inductive Question where
  | holds (w : List Piece)
  | unary (operator : String) (w : List Piece)
  | binary (operator : String) (a b : List Piece)
  | not (q : Question)
  | and (p q : Question)
  | or (p q : Question)

/-- What happens behind an arm of a choice. -/
inductive ArmEnd where
  | done
  | goOn
  | tryNext

inductive Command where
  | simple (line : Nat) (assignments : List Assignment) (words : List (List Piece))
      (redirections : List Redirection)
  | redirected (body : Command) (redirections : List Redirection)
  | sequence (commands : List Command)
  | background (body : Command)
  | andThen (first second : Command)
  | orElse (first second : Command)
  | not (body : Command)
  | pipe (parts : List Command)
  | subshell (body : Command)
  | choose (condition yes no : Command)
  | loop (negated : Bool) (condition body : Command)
  /-- Without words the positional parameters are gone through. -/
  | forEach (line : Nat) (name : String) (words : Option (List (List Piece))) (body : Command)
  | count (line : Nat) (start condition step : List Piece) (body : Command)
  /-- Let the reader of a menu choose one word after another. -/
  | menu (line : Nat) (name : String) (words : Option (List (List Piece))) (body : Command)
  | select (line : Nat) (word : List Piece) (arms : List (List (List Piece) × Command × ArmEnd))
  | define (name : String) (body : Command)
  | ask (line : Nat) (q : Question)
  | compute (line : Nat) (expression : List Piece)

end

abbrev Word := List Piece

instance : Inhabited Command := ⟨.sequence []⟩
instance : Inhabited Piece := ⟨.quotes⟩

/-- Whether octets are a name. -/
def startsName (c : Char) : Bool := c.isAlpha || c = '_'

def continuesName (c : Char) : Bool := c.isAlphanum || c = '_'

def isName (o : Octets) : Bool := (o.head?.any startsName) && o.all continuesName

end Whittle.Shell
