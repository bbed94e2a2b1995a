import Whittle.Grammar.Token

/-!
# Words and literals

How far a word, a number or a quoted literal reaches. A word may name characters by their numbers
(a backslash, `u` and four digits, or `U` and eight). A number is the longest text of its form. A
quoted literal may be broken at the end of a line: then only blanks, comments, escapes and the
closing quote may follow.
-/

namespace Whittle.Grammar

/-- The rest of a text behind the characters of a word. -/
def dropWord : List Char → List Char
  | '\\' :: 'u' :: a :: b :: c :: d :: cs =>
    if [a, b, c, d].all isHexDigit then dropWord cs else '\\' :: 'u' :: a :: b :: c :: d :: cs
  | '\\' :: 'U' :: a :: b :: c :: d :: e :: f :: g :: h :: cs =>
    if [a, b, c, d, e, f, g, h].all isHexDigit then dropWord cs
    else '\\' :: 'U' :: a :: b :: c :: d :: e :: f :: g :: h :: cs
  | c :: cs => if continuesWord c then dropWord cs else c :: cs
  | [] => []

/-- Whether a word starts a text. -/
def wordStarts (cs : List Char) : Bool :=
  match cs with
  | [] => false
  | c :: _ => startsWord c || (c = '\\' && (dropWord cs).length < cs.length)

/-- What a text has before a rest of it. -/
def takenBefore (cs rest : List Char) : List Char := cs.take (cs.length - rest.length)

/-- The rests of a text behind one or more digits; a single quote may stand between two of them. -/
def digitEnds (digit : Char → Bool) : List Char → List (List Char)
  | c :: '\'' :: d :: cs =>
    if digit c then (if digit d then digitEnds digit (d :: cs) else []) ++ ['\'' :: d :: cs]
    else []
  | c :: cs => if digit c then digitEnds digit cs ++ [cs] else []
  | [] => []

/-- The rests behind the digits of a number, with a base before them and a point among them. -/
def mantissaEnds (cs : List Char) : List (List Char) :=
  let whole := match cs with
    | '0' :: 'x' :: rest => digitEnds isHexDigit rest ++ digitEnds Text.isDigit cs
    | '0' :: 'X' :: rest => digitEnds isHexDigit rest ++ digitEnds Text.isDigit cs
    | '0' :: 'b' :: rest => digitEnds Text.isDigit rest ++ digitEnds Text.isDigit cs
    | '0' :: 'B' :: rest => digitEnds Text.isDigit rest ++ digitEnds Text.isDigit cs
    | '.' :: rest => digitEnds Text.isDigit rest
    | _ => digitEnds Text.isDigit cs
  whole.flatMap fun rest =>
    match rest with
    | '.' :: behind => digitEnds isHexDigit behind ++ [behind, rest]
    | _ => [rest]

/-- The same with an exponent behind them. -/
def exponentEnds (cs : List Char) : List (List Char) :=
  (mantissaEnds cs).flatMap fun rest =>
    match rest with
    | c :: behind =>
      if ['e', 'E', 'p', 'P'].contains c then
        let digits := match behind with
          | s :: more => if s = '+' || s = '-' then more else behind
          | [] => []
        digitEnds isHexDigit digits ++ [behind, rest]
      else [rest]
    | [] => [rest]

def numberSuffixes : List Char := "uUlLwWfFbBdD".toList

/-- The shortest of some texts. -/
def shortest (whole : List Char) (texts : List (List Char)) : List Char :=
  texts.foldl (fun best t => if t.length < best.length then t else best) whole

/-- The rest of a text behind the number at its front. -/
def dropNumber (cs : List Char) : List Char :=
  shortest cs ((exponentEnds cs).map fun rest => rest.dropWhile numberSuffixes.contains)

/-- Where in a quoted literal a scan stands: among its characters, behind the end of a line, or in
a comment there. -/
inductive QuotedPart where
  | content
  | gap
  | lineComment
  | blockComment
  deriving DecidableEq, Repr

/-- The rest of a text behind the closing quote. -/
def dropQuoted (quote : Char) : QuotedPart → List Char → List Char
  | _, [] => []
  | .content, '\\' :: _ :: cs => dropQuoted quote .content cs
  | .content, c :: cs =>
    if c = quote then cs
    else dropQuoted quote (if c = '\n' then .gap else .content) cs
  | .gap, '\\' :: _ :: cs => dropQuoted quote .content cs
  | .gap, '/' :: '/' :: cs => dropQuoted quote .lineComment cs
  | .gap, '/' :: '*' :: cs => dropQuoted quote .blockComment cs
  | .gap, c :: cs =>
    if c = quote then cs else dropQuoted quote (if isSpace c then .gap else .content) cs
  | .lineComment, c :: cs => dropQuoted quote (if c = '\n' then .gap else .lineComment) cs
  | .blockComment, '*' :: '/' :: cs => dropQuoted quote .gap cs
  | .blockComment, _ :: cs => dropQuoted quote .blockComment cs

/-- The rest of a text behind the first place where `close` stands. -/
def dropPast (close : List Char) : List Char → List Char
  | [] => []
  | c :: cs =>
    if close.isPrefixOf (c :: cs) then (c :: cs).drop close.length else dropPast close cs

/-- The rest of a text behind a raw literal whose opening quote is left out. -/
def dropRaw (cs : List Char) : List Char :=
  let delimiter := cs.takeWhile (· ≠ '(')
  dropPast (')' :: delimiter ++ ['"']) (cs.drop delimiter.length)

/-- The words that may stand directly before a quote, and those of raw literals. -/
def literalMarks : List String := ["L", "u", "U", "u8"]
def rawMarks : List String := ["R", "LR", "uR", "UR", "u8R"]

end Whittle.Grammar
