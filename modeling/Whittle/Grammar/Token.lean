import Whittle.Text.Numeral

/-!
# Tokens of C and C++

A text is cut into words, numbers, literals and punctuation. A token knows the rows it stands on,
what stands between it and the token before, and how many tokens follow; a last token without text
marks the end. Closing angles are tokens of one character each, because lists of template arguments
may end in several of them; all other punctuation is as long as it can be.
-/

namespace Whittle.Grammar

inductive TokenKind where
  | word
  | number
  | string
  | char
  | punct
  | finish
  deriving DecidableEq, Repr

structure Token where
  kind : TokenKind
  text : String
  /-- The rows of the first and the last character, counted from zero. -/
  row : Nat
  endRow : Nat
  /-- The row on which the token before ends. -/
  lastRow : Nat
  /-- Whether the token directly follows the one before. -/
  tight : Bool
  /-- Whether a comment stands between the token and the one before. -/
  commented : Bool
  /-- How many tokens follow. -/
  left : Nat
  deriving DecidableEq, Repr

namespace Token

def isPunct (t : Token) (text : String) : Bool := t.kind = .punct && t.text = text

def isPunctIn (t : Token) (texts : List String) : Bool := t.kind = .punct && texts.contains t.text

def isWord (t : Token) (text : String) : Bool := t.kind = .word && t.text = text

def isWordIn (t : Token) (texts : List String) : Bool := t.kind = .word && texts.contains t.text

def isQuoted (t : Token) : Bool := t.kind = .string || t.kind = .char

def opens (t : Token) : Bool := t.isPunctIn ["(", "[", "\x7b"]

def closes (t : Token) : Bool := t.isPunctIn [")", "]", "\x7d"]

end Token

/-- Tokens that know how many follow them. -/
def counted : List Token → List Token
  | [] => []
  | t :: ts =>
    let rest := counted ts
    { t with left := (rest.head?.map fun u => u.left + 1).getD 0 } :: rest

def isLetter (c : Char) : Bool :=
  ('a'.toNat ≤ c.toNat && c.toNat ≤ 'z'.toNat) || ('A'.toNat ≤ c.toNat && c.toNat ≤ 'Z'.toNat)

def isHexDigit (c : Char) : Bool :=
  Text.isDigit c || ('a'.toNat ≤ c.toNat && c.toNat ≤ 'f'.toNat) ||
    ('A'.toNat ≤ c.toNat && c.toNat ≤ 'F'.toNat)

def isSpace (c : Char) : Bool :=
  c = ' ' || c = '\t' || c = '\n' || c = '\r' || c.toNat = 0x0b || c.toNat = 0x0c ||
    c.toNat = 0xfeff || c.toNat = 0xa0 || c.toNat = 0x2028 || c.toNat = 0x2029

/-- Letters, the underscore, the dollar sign, and whatever is neither ASCII nor blank may start a
word. -/
def startsWord (c : Char) : Bool :=
  isLetter c || c = '_' || c = '$' || (c.toNat > 0x7f && !isSpace c)

def continuesWord (c : Char) : Bool := startsWord c || Text.isDigit c

def countRows (cs : List Char) : Nat := cs.count '\n'

end Whittle.Grammar
