/-!
# Decimal numerals

`readNat` accepts non-empty strings of ASCII digits, leading zeros included; `writeNat` writes
without leading zeros. Line numbers are below `lineLimit`, so `readLine` refuses larger numerals;
it also accepts one plus sign.
-/

namespace Whittle.Text

def isDigit (c : Char) : Bool := '0'.toNat ≤ c.toNat && c.toNat ≤ '9'.toNat

def digitValue (c : Char) : Nat := c.toNat - '0'.toNat

/-- The digit of a number below ten. -/
def digitChar (n : Nat) : Char := Char.ofNat ('0'.toNat + n)

/-- The value of digits that follow digits of value `acc`. -/
def digitsValue (acc : Nat) (cs : List Char) : Nat :=
  cs.foldl (fun n c => 10 * n + digitValue c) acc

def readNat (cs : List Char) : Option Nat :=
  if cs ≠ [] ∧ cs.all isDigit then some (digitsValue 0 cs) else none

def writeNat (n : Nat) : List Char :=
  if n < 10 then [digitChar n] else writeNat (n / 10) ++ [digitChar (n % 10)]

def natText (n : Nat) : String := String.ofList (writeNat n)

def intText (n : Int) : String :=
  if n < 0 then "-" ++ natText n.natAbs else natText n.natAbs

/-- One more than the largest number a line, or a count of lines, can have. -/
def lineLimit : Nat := Nat.pow 2 32

/-- An unsigned number below `lineLimit`, with an optional plus sign. -/
def readLine (cs : List Char) : Option Nat :=
  let digits := match cs with
    | '+' :: rest => rest
    | _ => cs
  (readNat digits).filter (· < lineLimit)

theorem isDigit_digitChar {n : Nat} (h : n < 10) : isDigit (digitChar n) = true := by
  have : ∀ k : Fin 10, isDigit (digitChar k.val) = true := by decide
  exact this ⟨n, h⟩

theorem digitValue_digitChar {n : Nat} (h : n < 10) : digitValue (digitChar n) = n := by
  have : ∀ k : Fin 10, digitValue (digitChar k.val) = k.val := by decide
  exact this ⟨n, h⟩

theorem writeNat_ne_nil (n : Nat) : writeNat n ≠ [] := by
  unfold writeNat; split <;> simp

theorem all_isDigit_writeNat (n : Nat) : (writeNat n).all isDigit = true := by
  induction n using writeNat.induct with
  | case1 n h => unfold writeNat; simp [h, isDigit_digitChar h]
  | case2 n h ih =>
    unfold writeNat
    simp [h, ih, isDigit_digitChar (Nat.mod_lt n (by decide : 10 > 0))]

theorem digitsValue_append (acc : Nat) (xs ys : List Char) :
    digitsValue acc (xs ++ ys) = digitsValue (digitsValue acc xs) ys := by
  simp [digitsValue]

theorem digitsValue_writeNat (n : Nat) : digitsValue 0 (writeNat n) = n := by
  induction n using writeNat.induct with
  | case1 n h => unfold writeNat; simp [h, digitsValue, digitValue_digitChar h]
  | case2 n h ih =>
    unfold writeNat
    rw [if_neg h, digitsValue_append, ih]
    simp only [digitsValue, List.foldl_cons, List.foldl_nil,
      digitValue_digitChar (Nat.mod_lt n (by decide : 10 > 0))]
    omega

theorem readNat_writeNat (n : Nat) : readNat (writeNat n) = some n := by
  simp [readNat, writeNat_ne_nil, all_isDigit_writeNat, digitsValue_writeNat]

end Whittle.Text
