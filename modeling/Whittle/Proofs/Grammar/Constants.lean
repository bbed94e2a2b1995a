import Whittle.Proofs.Grammar.Lexemes

/-!
# The values of constants

What a decimal number and a string literal of C stand for. The value of a literal is a row of
octets: characters stand for their UTF-8 form, and escapes for one octet (`\n`, `\x41`, `\101`) or
for the UTF-8 form of the character they name (`\u00e4`). Trigraphs are not read.
-/

namespace Whittle.Grammar

open Text

/-- The value of a numeral that is not octal. -/
def decimalValue (s : String) : Option Nat :=
  if s ≠ "0" ∧ s.toList.head? = some '0' then none else readNat s.toList

/-- The octets of the UTF-8 form of a text. -/
def octets (s : String) : List UInt8 := s.toUTF8.data.toList

theorem octets_eq (s : String) : octets s = s.toList.flatMap String.utf8EncodeChar := by
  rw [octets, String.toUTF8, ← String.utf8Encode_toList, List.utf8Encode]
  simp

/-! ## Escapes -/

/-- The escapes of one character. -/
def shortEscapes : List (Char × UInt8) :=
  [('\'', 0x27), ('"', 0x22), ('?', 0x3f), ('\\', 0x5c), ('a', 0x07), ('b', 0x08), ('f', 0x0c),
   ('n', 0x0a), ('r', 0x0d), ('t', 0x09), ('v', 0x0b)]

def isOctalDigit (c : Char) : Bool := '0'.toNat ≤ c.toNat && c.toNat ≤ '7'.toNat

def hexDigitValue (c : Char) : Nat :=
  if isDigit c then digitValue c
  else if c.toNat < 'a'.toNat then c.toNat - 'A'.toNat + 10 else c.toNat - 'a'.toNat + 10

/-- The value of digits of a base. -/
def valueIn (base : Nat) (digits : List Char) : Nat :=
  digits.foldl (fun n c => base * n + hexDigitValue c) 0

/-- An octet, if the digits stand for one. -/
def octetIn (base : Nat) (digits : List Char) : Option (List UInt8) :=
  let n := valueIn base digits
  if digits ≠ [] ∧ n < 256 then some [UInt8.ofNat n] else none

/-- The character with a number of exactly `width` hexadecimal digits. -/
def namedCharacter (width : Nat) (cs : List Char) : Option (List UInt8) :=
  let digits := cs.take width
  let n := valueIn 16 digits
  if digits.length = width ∧ digits.all isHexDigit ∧ n.isValidChar then
    some (String.utf8EncodeChar (Char.ofNat n))
  else none

/-- The octets of the escape whose backslash is left out, and how many characters belong to it. -/
def escapeValue : List Char → Option (List UInt8 × Nat)
  | [] => none
  | 'x' :: cs =>
    let digits := cs.takeWhile isHexDigit
    (octetIn 16 digits).map (·, digits.length + 1)
  | 'u' :: cs => (namedCharacter 4 cs).map (·, 5)
  | 'U' :: cs => (namedCharacter 8 cs).map (·, 9)
  | c :: cs =>
    if isOctalDigit c then
      let digits := ((c :: cs).take 3).takeWhile isOctalDigit
      (octetIn 8 digits).map (·, digits.length)
    else (shortEscapes.lookup c).map fun octet => ([octet], 1)

/-- The octets of the characters between two quotes; `skip` characters of an escape already read
are still to be passed over. -/
def bodyValue : Nat → List Char → Option (List UInt8)
  | _, [] => some []
  | skip + 1, _ :: cs => bodyValue skip cs
  | 0, c :: cs =>
    if c = '\\' then
      match escapeValue cs with
      | some (octets, length) => (bodyValue length cs).map (octets ++ ·)
      | none => none
    else if c = '"' ∨ c = '\n' then none
    else (bodyValue 0 cs).map (String.utf8EncodeChar c ++ ·)

/-- The value of a string literal without a prefix. -/
def literalValue (s : String) : Option (List UInt8) :=
  match s.toList with
  | '"' :: cs => if cs.getLast? = some '"' then bodyValue 0 cs.dropLast else none
  | _ => none

example : literalValue "\"a\\n\\x41\\101\\u00e4\\\"\"" = some [97, 10, 65, 65, 0xc3, 0xa4, 34] := by
  decide +kernel

/-! ## Escaping -/

/-- Quotes and backslashes behind a backslash. -/
def escapeChar (c : Char) : List Char :=
  if c = '\\' then ['\\', '\\'] else if c = '"' then ['\\', '"'] else [c]

theorem dropQuoted_of_ne {quote c : Char} {cs : List Char} (hc : c ≠ '\\' ∧ c ≠ quote ∧ c ≠ '\n') :
    dropQuoted quote .content (c :: cs) = dropQuoted quote .content cs := by
  rw [dropQuoted, if_neg hc.2.1, if_neg hc.2.2]
  exact fun _ _ e => absurd e hc.1

/-- A quote among escaped characters does not close their literal. -/
theorem dropQuoted_escape {cs rest : List Char} (h : '\n' ∉ cs) :
    dropQuoted '"' .content (cs.flatMap escapeChar ++ '"' :: rest) = rest := by
  induction cs with
  | nil => rfl
  | cons c cs ih =>
    rw [List.mem_cons, not_or] at h
    have ih := ih h.2
    rw [List.flatMap_cons, List.append_assoc]
    by_cases hb : c = '\\'
    · subst hb; exact ih
    by_cases hq : c = '"'
    · subst hq; exact ih
    rw [escapeChar, if_neg hb, if_neg hq, List.singleton_append,
      dropQuoted_of_ne ⟨hb, hq, Ne.symm h.1⟩, ih]

/-- Escaped characters stand for their octets. -/
theorem bodyValue_escape {cs : List Char} (h : '\n' ∉ cs) :
    bodyValue 0 (cs.flatMap escapeChar) = some (cs.flatMap String.utf8EncodeChar) := by
  induction cs with
  | nil => rfl
  | cons c cs ih =>
    rw [List.mem_cons, not_or] at h
    have ih := ih h.2
    rw [List.flatMap_cons, List.flatMap_cons]
    by_cases hb : c = '\\'
    · subst hb
      change (bodyValue 0 (cs.flatMap escapeChar)).map _ = _
      rw [ih]
      rfl
    by_cases hq : c = '"'
    · subst hq
      change (bodyValue 0 (cs.flatMap escapeChar)).map _ = _
      rw [ih]
      rfl
    have hn : ¬(c = '"' ∨ c = '\n') := not_or.mpr ⟨hq, Ne.symm h.1⟩
    rw [escapeChar, if_neg hb, if_neg hq, List.singleton_append, bodyValue, if_neg hb, if_neg hn,
      ih]
    rfl

end Whittle.Grammar
