import Whittle.Text.Numeral

/-!
# JSON values and their indented form

Objects keep their members in order. A value is `garbled` if it is well formed but one of its strings,
or the name of one of its members, is no text. `Json.pretty` writes one member or element a line, two blanks
deeper than its container; what has no members is written as an empty pair of brackets.
-/

namespace Whittle

inductive Json where
  | null
  | bool (b : Bool)
  /-- A number as it is written. -/
  | number (text : String)
  | string (s : String)
  | array (elements : List Json)
  | object (members : List (String × Json))
  | garbled
  deriving Inhabited

namespace Json

def ofNat (n : Nat) : Json := .number (Text.natText n)

def ofOption {α : Type} (f : α → Json) : Option α → Json
  | none => .null
  | some a => f a

def hexDigit (n : Nat) : Char := if n < 10 then Text.digitChar n else Char.ofNat ('a'.toNat + n - 10)

/-- The characters that stand for one character in a string. -/
def escapeChar (c : Char) : List Char :=
  if c = '"' then ['\\', '"']
  else if c = '\\' then ['\\', '\\']
  else if c = '\n' then ['\\', 'n']
  else if c = '\r' then ['\\', 'r']
  else if c = '\t' then ['\\', 't']
  else if c.toNat = 0x08 then ['\\', 'b']
  else if c.toNat = 0x0c then ['\\', 'f']
  else if c.toNat < 0x20 then
    ['\\', 'u', '0', '0', hexDigit (c.toNat / 16), hexDigit (c.toNat % 16)]
  else [c]

def quote (s : String) : String :=
  String.ofList ('"' :: s.toList.flatMap escapeChar ++ ['"'])

def indentation (depth : Nat) : String := String.ofList (List.replicate (2 * depth) ' ')

mutual

/-- The text of a value inside `depth` containers. -/
def prettyAt (depth : Nat) : Json → String
  | null => "null"
  | bool b => if b then "true" else "false"
  | number text => text
  | string s => quote s
  | array [] => "[]"
  | array (e :: es) =>
    "[\n" ++ prettyElements depth (e :: es) ++ "\n" ++ indentation depth ++ "]"
  | garbled => "null"
  | object [] => "\x7b\x7d"
  | object (m :: ms) =>
    "\x7b\n" ++ prettyMembers depth (m :: ms) ++ "\n" ++ indentation depth ++ "\x7d"

def prettyElements (depth : Nat) : List Json → String
  | [] => ""
  | [e] => indentation (depth + 1) ++ prettyAt (depth + 1) e
  | e :: es =>
    indentation (depth + 1) ++ prettyAt (depth + 1) e ++ ",\n" ++ prettyElements depth es

def prettyMembers (depth : Nat) : List (String × Json) → String
  | [] => ""
  | [(k, v)] => indentation (depth + 1) ++ quote k ++ ": " ++ prettyAt (depth + 1) v
  | (k, v) :: ms =>
    indentation (depth + 1) ++ quote k ++ ": " ++ prettyAt (depth + 1) v ++ ",\n" ++
      prettyMembers depth ms

end

def pretty (j : Json) : String := prettyAt 0 j

end Json

end Whittle
