import Whittle.Json.Value

/-!
# Reading JSON

`Json.read` reads one value and nothing behind it but blanks. It takes no comments and no commas
before a closing bracket, and strings hold no control characters. An escape may stand for half of a
surrogate pair; where the other half is missing the string is no text, and what it belongs to is
garbled. Members of an object may repeat.
-/

namespace Whittle.Json

open Text

def isSpace (c : Char) : Bool := c = ' ' || c = '\n' || c = '\t' || c = '\r'

def skipSpace (cs : List Char) : List Char := cs.dropWhile isSpace

def hexValue (c : Char) : Option Nat :=
  if isDigit c then some (digitValue c)
  else if 'a'.toNat ≤ c.toNat ∧ c.toNat ≤ 'f'.toNat then some (c.toNat - 'a'.toNat + 10)
  else if 'A'.toNat ≤ c.toNat ∧ c.toNat ≤ 'F'.toNat then some (c.toNat - 'A'.toNat + 10)
  else none

/-- Four hexadecimal digits. -/
def readUnit : List Char → Option (Nat × List Char)
  | a :: b :: c :: d :: rest => do
    let a ← hexValue a
    let b ← hexValue b
    let c ← hexValue c
    let d ← hexValue d
    some (((a * 16 + b) * 16 + c) * 16 + d, rest)
  | _ => none

/-- The character behind an escape with a code unit; a pair of halves is one character, half a pair is
none. -/
def readEscapedUnit (cs : List Char) : Option (Option Char × List Char) := do
  let (n, rest) ← readUnit cs
  if 0xd800 ≤ n ∧ n < 0xdc00 then
    match rest with
    | '\\' :: 'u' :: more =>
      let (m, behind) ← readUnit more
      if 0xdc00 ≤ m ∧ m < 0xe000 then
        some (some (Char.ofNat (0x10000 + (n - 0xd800) * 0x400 + (m - 0xdc00))), behind)
      else some (none, rest)
    | _ => some (none, rest)
  else if 0xdc00 ≤ n ∧ n < 0xe000 then some (none, rest)
  else some (some (Char.ofNat n), rest)

def simpleEscapes : List (Char × Char) :=
  [('"', '"'), ('\\', '\\'), ('/', '/'), ('b', '\x08'), ('f', '\x0c'), ('n', '\n'), ('r', '\r'),
   ('t', '\t')]

/-- The characters of a string behind its opening quote. -/
def readStringFrom : Nat → List Char → Option (List (Option Char) × List Char)
  | 0, _ => none
  | fuel + 1, cs =>
    match cs with
    | [] => none
    | '"' :: rest => some ([], rest)
    | '\\' :: 'u' :: rest => do
      let (c, rest) ← readEscapedUnit rest
      let r ← readStringFrom fuel rest
      some (c :: r.1, r.2)
    | '\\' :: e :: rest => do
      let c ← (simpleEscapes.find? fun p => p.1 = e).map Prod.snd
      let r ← readStringFrom fuel rest
      some (some c :: r.1, r.2)
    | c :: rest =>
      if c = '\\' ∨ c.toNat < 0x20 then none
      else do
        let r ← readStringFrom fuel rest
        some (some c :: r.1, r.2)

/-- The text of a string, if it has one. -/
def readString (cs : List Char) : Option (Option String × List Char) :=
  (readStringFrom (cs.length + 1) cs).map fun r => ((r.1.mapM id).map String.ofList, r.2)

def ofText : Option String → Json
  | some s => .string s
  | none => .garbled

/-- An object of members with names that are texts. -/
def ofMembers (ms : List (Option String × Json)) : Json :=
  match ms.mapM fun m => m.1.map fun k => (k, m.2) with
  | some ms => .object ms
  | none => .garbled

/-- At least one digit. -/
def readDigits (cs : List Char) : Option (List Char × List Char) :=
  let digits := cs.takeWhile isDigit
  if digits = [] then none else some (digits, cs.dropWhile isDigit)

/-- A number: no zeros in front, digits on both sides of a point, digits in an exponent. -/
def readNumber (cs : List Char) : Option (Json × List Char) := do
  let (sign, cs) : List Char × List Char := match cs with
    | '-' :: rest => (['-'], rest)
    | _ => ([], cs)
  let (whole, cs) ← match cs with
    | '0' :: rest => if rest.head?.any isDigit then none else some (['0'], rest)
    | _ => readDigits cs
  let (fraction, cs) ← match cs with
    | '.' :: rest => (readDigits rest).map fun r => ('.' :: r.1, r.2)
    | _ => some ([], cs)
  let (exponent, cs) ← match cs with
    | e :: rest =>
      if e = 'e' ∨ e = 'E' then
        let (sign, rest) : List Char × List Char := match rest with
          | s :: more => if s = '+' ∨ s = '-' then ([s], more) else ([], rest)
          | [] => ([], rest)
        (readDigits rest).map fun r => (e :: sign ++ r.1, r.2)
      else some ([], cs)
    | [] => some ([], cs)
  some (.number (String.ofList (sign ++ whole ++ fraction ++ exponent)), cs)

def readWord (word : String) (value : Json) (cs : List Char) : Option (Json × List Char) :=
  if word.toList.isPrefixOf cs then some (value, cs.drop word.length) else none

mutual

def readValue : Nat → List Char → Option (Json × List Char)
  | 0, _ => none
  | fuel + 1, cs =>
    match skipSpace cs with
    | [] => none
    | '"' :: rest => (readString rest).map fun r => (ofText r.1, r.2)
    | '[' :: rest =>
      match skipSpace rest with
      | ']' :: behind => some (.array [], behind)
      | _ => (readElements fuel rest).map fun r => (.array r.1, r.2)
    | '{' :: rest =>
      match skipSpace rest with
      | '}' :: behind => some (.object [], behind)
      | _ => (readMembers fuel rest).map fun r => (ofMembers r.1, r.2)
    | c :: rest =>
      if c = 'n' then readWord "null" .null (c :: rest)
      else if c = 't' then readWord "true" (.bool true) (c :: rest)
      else if c = 'f' then readWord "false" (.bool false) (c :: rest)
      else readNumber (c :: rest)

/-- The elements of an array that has some, and its closing bracket. -/
def readElements : Nat → List Char → Option (List Json × List Char)
  | 0, _ => none
  | fuel + 1, cs =>
    match readValue fuel cs with
    | none => none
    | some (v, rest) =>
      match skipSpace rest with
      | ']' :: behind => some ([v], behind)
      | ',' :: behind => (readElements fuel behind).map fun r => (v :: r.1, r.2)
      | _ => none

/-- The members of an object that has some, and its closing brace. -/
def readMembers : Nat → List Char → Option (List (Option String × Json) × List Char)
  | 0, _ => none
  | fuel + 1, cs =>
    match skipSpace cs with
    | '"' :: rest =>
      match readString rest with
      | none => none
      | some (k, rest) =>
        match skipSpace rest with
        | ':' :: rest =>
          match readValue fuel rest with
          | none => none
          | some (v, rest) =>
            match skipSpace rest with
            | '}' :: behind => some ([(k, v)], behind)
            | ',' :: behind => (readMembers fuel behind).map fun r => ((k, v) :: r.1, r.2)
            | _ => none
        | _ => none
    | _ => none

end

def read (s : String) : Option Json :=
  match readValue (s.toList.length + 1) s.toList with
  | some (v, rest) => if skipSpace rest = [] then some v else none
  | none => none

end Whittle.Json
