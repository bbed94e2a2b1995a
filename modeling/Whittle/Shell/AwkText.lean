import Whittle.Shell.RegexText

/-!
# The text of awk programs

A program is cut into tokens. What a slash means depends on what stands before it: behind an operand
it divides, elsewhere a regular expression starts.
-/

namespace Whittle.Shell.Awk

inductive Token where
  | number (digits : Octets)
  | string (o : Octets)
  | regex (o : Octets)
  | name (s : String)
  /-- A name with a parenthesis right behind it. -/
  | called (s : String)
  | builtin (s : String)
  | keyword (s : String)
  | mark (s : String)
  | lineEnd
  deriving DecidableEq, Repr

def keywords : List String :=
  ["BEGIN", "END", "function", "func", "if", "else", "while", "for", "do", "break", "continue",
   "next", "nextfile", "exit", "return", "delete", "in", "getline", "print", "printf"]

def builtins : List String :=
  ["length", "substr", "index", "split", "sub", "gsub", "match", "sprintf", "sin", "cos", "atan2",
   "exp", "log", "sqrt", "int", "rand", "srand", "tolower", "toupper", "system", "close", "fflush",
   "systime"]

/-- The marks, longer ones before those they start with. -/
def marks : List String :=
  ["&&", "||", "++", "--", "+=", "-=", "*=", "/=", "%=", "^=", "==", "<=", ">=", "!=", "!~", ">>",
   "\x7b", "\x7d", "(", ")", "[", "]", ";", ",", "+", "-", "*", "/", "%", "^", "!", "<", ">", "|",
   "?", ":", "~", "$", "="]

/-- Whether an operand may end with a token. -/
def Token.endsOperand : Token → Bool
  | .number _ => true
  | .string _ => true
  | .regex _ => true
  | .name _ => true
  | .builtin _ => true
  | .mark s => [")", "]", "++", "--"].contains s
  | _ => false

def isNameStart (c : Char) : Bool := c.isAlpha || c = '_'

def isNamePart (c : Char) : Bool := c.isAlphanum || c = '_'

/-- A string read behind its opening quote, and what follows it. -/
def readString : Nat → Octets → Option (Octets × Octets)
  | 0, _ => none
  | n + 1, cs =>
    match cs with
    | [] => none
    | '"' :: rest => some ([], rest)
    | '\\' :: '\n' :: rest => readString n rest
    | '\\' :: c :: rest =>
      let octal := ((c :: rest).takeWhile isOctal).take 3
      let hex := if c = 'x' then (rest.takeWhile fun d => (hexDigit d).isSome).take 2 else []
      if !octal.isEmpty then
        (readString n ((c :: rest).drop octal.length)).map fun r =>
          (octet (octalValue octal) ++ r.1, r.2)
      else if !hex.isEmpty then
        (readString n (rest.drop hex.length)).map fun r => (octet (hexValue hex) ++ r.1, r.2)
      else
        (readString n rest).map fun r =>
          match controlOf c with
          | some d => (d :: r.1, r.2)
          | none =>
            if c = 'b' then ('\x08' :: r.1, r.2)
            else if c = '"' || c = '\\' then (c :: r.1, r.2)
            else ('\\' :: c :: r.1, r.2)
    | c :: rest => (readString n rest).map fun r => (c :: r.1, r.2)

/-- The text of a regular expression read behind its opening slash, and what follows it. -/
def readSlashed (bracket : Bool) : Octets → Option (Octets × Octets)
  | [] => none
  | '\n' :: _ => none
  | '\\' :: c :: rest =>
    (readSlashed bracket rest).map fun r =>
      (if c = '/' || c = '"' then c :: r.1 else '\\' :: c :: r.1, r.2)
  | c :: rest =>
    if c = '/' && !bracket then some ([], rest)
    else
      let bracket := if c = '[' then true else if c = ']' then false else bracket
      (readSlashed bracket rest).map fun r => (c :: r.1, r.2)

/-- The digits of a number in front. -/
def digitsOf (cs : Octets) : Octets :=
  let whole := cs.takeWhile Text.isDigit
  let rest := cs.drop whole.length
  let fraction := match rest with
    | '.' :: rest => '.' :: rest.takeWhile Text.isDigit
    | _ => []
  let rest := rest.drop fraction.length
  let exponent := match rest with
    | e :: more =>
      let sign := (more.takeWhile fun c => c = '+' || c = '-').take 1
      let digits := (more.drop sign.length).takeWhile Text.isDigit
      if (e = 'e' || e = 'E') && !digits.isEmpty then e :: sign ++ digits else []
    | [] => []
  whole ++ fraction ++ exponent

/-- The token of a word, what follows it being known. -/
def wordToken (s : String) (rest : Octets) : Token :=
  if keywords.contains s then .keyword s
  else if builtins.contains s then .builtin s
  else if rest.head? = some '(' then .called s
  else .name s

/-- The tokens of a program. The number bounds the steps; the token before is known. -/
def readTokens (last : Option Token) : Nat → Octets → Option (List Token)
  | 0, _ => none
  | n + 1, cs =>
    let push (t : Token) (rest : Octets) : Option (List Token) :=
      (readTokens (some t) n rest).map (t :: ·)
    match cs with
    | [] => some []
    | '\n' :: rest => push .lineEnd rest
    | '\\' :: '\n' :: rest => readTokens last n rest
    | '#' :: rest => readTokens last n (rest.dropWhile (· ≠ '\n'))
    | '"' :: rest => do
      let (o, rest) ← readString (rest.length + 1) rest
      push (.string o) rest
    | c :: rest =>
      if c = ' ' || c = '\t' || c = '\r' then readTokens last n rest
      else if Text.isDigit c || (c = '.' && (rest.head?.any Text.isDigit)) then
        let digits := digitsOf cs
        push (.number digits) (cs.drop digits.length)
      else if isNameStart c then
        let name := cs.takeWhile isNamePart
        let rest := cs.drop name.length
        push (wordToken (String.ofList name) rest) rest
      else if c = '/' && !last.any Token.endsOperand then do
        let (o, rest) ← readSlashed false rest
        push (.regex o) rest
      else do
        let m ← marks.find? fun m => m.toList.isPrefixOf cs
        push (.mark m) (cs.drop m.length)

/-- The tokens of a program. -/
def tokensOf (cs : Octets) : Option (List Token) := readTokens none (cs.length + 1) cs

end Whittle.Shell.Awk
