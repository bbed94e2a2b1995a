import Mathlib.Data.List.Basic
import Mathlib.Data.List.Forall2
import Mathlib.Data.Nat.Digits.Defs
import Whittle.Proofs.Action
import Whittle.Proofs.Disk.Copy
import Whittle.Proofs.Text.Blanks
import Whittle.Proofs.Text.Lacking
import Whittle.Proofs.Text.Lines
import Whittle.Slice.Lines

/-!
# Line numbers written and read back

A line shows a number (`Shows`) if it is the number's decimal digits with blanks around them, and
`readLineNumbers` reads the numbers that the lines of a text show (`readLineNumbers_eq_iff`). Of
what `writeLineNumbers` writes all numbers are read back that a line can have
(`readLineNumbers_writeLineNumbers_eq_filter`), from a file as from the text (`numbers_read_back`).
-/

namespace Whittle.Text

/-! ## Numerals -/

theorem readNat_eq_some_iff {ds : List Char} {n : Nat} : readNat ds = some n ↔
    ds ≠ [] ∧ (∀ d ∈ ds, isDigit d = true) ∧ digitsValue 0 ds = n := by
  unfold readNat
  split
  · rename_i h
    have hdigits := List.all_eq_true.mp h.2
    rw [Option.some.injEq]
    exact ⟨fun hvalue => ⟨h.1, hdigits, hvalue⟩, fun hds => hds.2.2⟩
  · rename_i h
    refine ⟨nofun, fun hds => absurd ⟨hds.1, List.all_eq_true.mpr hds.2.1⟩ h⟩

/-- The value of digits, the last of which counts ones. -/
theorem digitsValue_eq_ofDigits (ds : List Char) :
    digitsValue 0 ds = Nat.ofDigits 10 (ds.map digitValue).reverse := by
  induction ds using List.reverseRecOn with
  | nil => rfl
  | append_singleton ds d ih =>
    rw [digitsValue_append, ih, List.map_append, List.reverse_append, List.map_singleton,
      List.reverse_singleton, List.singleton_append, Nat.ofDigits_cons, Nat.add_comm]
    rfl

theorem digitChar_eq {n : Nat} (h : n < 10) : digitChar n = n.digitChar := by
  have : ∀ k : Fin 10, digitChar k.val = k.val.digitChar := by decide
  exact this ⟨n, h⟩

theorem writeNat_eq_toDigits (n : Nat) : writeNat n = Nat.toDigits 10 n := by
  induction n using writeNat.induct with
  | case1 n h => rw [writeNat, if_pos h, Nat.toDigits_of_lt_base h, digitChar_eq h]
  | case2 n h ih =>
    rw [writeNat, if_neg h, ih, Nat.toDigits_of_base_le (by decide) (Nat.not_lt.mp h),
      digitChar_eq (Nat.mod_lt n (by decide))]

theorem natText_eq_toString (n : Nat) : natText n = toString n := by
  rw [natText, writeNat_eq_toDigits, Nat.toString_eq_ofList_toDigits]

end Whittle.Text

namespace Whittle.Slice

open Text Disk

/-- A number that a line can have. -/
def IsLine (n : Nat) : Prop := 0 < n ∧ n < lineLimit

/-- A text that shows a number: decimal digits, with leading zeros or without, and blanks around
them. -/
inductive Shows (n : Nat) : List Char → Prop where
  | mk {before digits behind : List Char} (blank_before : AllBlank before)
      (blank_behind : AllBlank behind) (some_digit : digits ≠ [])
      (all_digits : ∀ c ∈ digits, isDigit c = true)
      (value : Nat.ofDigits 10 (digits.map digitValue).reverse = n) (isLine : IsLine n) :
      Shows n (before ++ digits ++ behind)

/-- A line that shows a number. -/
def IsNumeric (l : String) : Prop := ∃ n, Shows n l.toList

/-! ## Single lines -/

theorem isBlank_of_isDigit {c : Char} (h : isDigit c = true) : isBlank c = false := by
  have hdigit : 48 ≤ c.toNat ∧ c.toNat ≤ 57 := by simpa [isDigit] using h
  simp [isBlank, blankRanges]
  omega

theorem trimmed_of_digits {cs : List Char} (h : ∀ c ∈ cs, isDigit c = true) : Trimmed cs :=
  trimmed_of_not_blank fun c hc => isBlank_of_isDigit (h c hc)

theorem lineNumber_eq_some {cs : List Char} {n : Nat} :
    lineNumber cs = some n ↔ trimChars cs ≠ [] ∧ (∀ c ∈ trimChars cs, isDigit c = true) ∧
      digitsValue 0 (trimChars cs) = n ∧ IsLine n := by
  rw [lineNumber, Option.filter_eq_some_iff, readNat_eq_some_iff, Bool.and_eq_true,
    decide_eq_true_eq, decide_eq_true_eq, and_assoc, and_assoc]
  rfl

/-- A number is read from a line exactly if the line shows it. -/
theorem lineNumber_eq_some_iff_shows {cs : List Char} {n : Nat} :
    lineNumber cs = some n ↔ Shows n cs := by
  rw [lineNumber_eq_some]
  constructor
  · rintro ⟨hne, hdigits, hvalue, hline⟩
    obtain ⟨before, behind, hbefore, hbehind, hcs⟩ := padding cs
    rw [hcs]
    exact .mk hbefore hbehind hne hdigits (digitsValue_eq_ofDigits _ ▸ hvalue) hline
  · -- digits are no blanks, so trimming stops at them
    rintro ⟨hbefore, hbehind, hne, hdigits, hvalue, hline⟩
    rw [trimChars_padded hbefore (trimmed_of_digits hdigits) hbehind, digitsValue_eq_ofDigits]
    exact ⟨hne, hdigits, hvalue, hline⟩

theorem isNumeric_iff {l : String} : IsNumeric l ↔ (lineNumber l.toList).isSome = true := by
  simp only [IsNumeric, Option.isSome_iff_exists, lineNumber_eq_some_iff_shows]

instance : DecidablePred IsNumeric := fun _ => decidable_of_iff' _ isNumeric_iff

theorem lineNumber_writeNat (n : Nat) :
    lineNumber (writeNat n) = Option.guard (fun k => 0 < k && k < lineLimit) n := by
  have htrim : trimChars (writeNat n) = writeNat n :=
    trimChars_of_trimmed (trimmed_of_digits (List.all_eq_true.mp (all_isDigit_writeNat n)))
  rw [lineNumber, htrim, readNat_writeNat]
  rfl

/-! ## Texts -/

theorem readLineNumbers_eq (s : String) :
    readLineNumbers s = (lines s).filterMap fun l => lineNumber l.toList := by
  rw [readLineNumbers, lines, List.filterMap_map]
  simp only [Function.comp_def, String.toList_ofList]

theorem isLine_of_mem {s : String} {n : Nat} (h : n ∈ readLineNumbers s) : IsLine n := by
  obtain ⟨cs, -, hn⟩ := List.mem_filterMap.mp h
  exact (lineNumber_eq_some.mp hn).2.2.2

/-- What a partial function makes of a list, element by element. -/
theorem filterMap_eq_iff_forall₂ {α β : Type} {f : α → Option β} {as : List α} {bs : List β} :
    as.filterMap f = bs ↔
      List.Forall₂ (fun a b => f a = some b) (as.filter fun a => (f a).isSome) bs := by
  induction as generalizing bs with
  | nil => simp [eq_comm]
  | cons a as ih =>
    cases ha : f a with
    | none =>
      -- the element drops out of both sides
      simp [ha, ih]
    | some b => cases bs with
      | nil => simp [ha]
      | cons c bs => simp [ha, ih, List.forall₂_cons]

/-- The numbers of a text are those that its lines show, in order. -/
theorem readLineNumbers_eq_iff {s : String} {ns : List Nat} : readLineNumbers s = ns ↔
    List.Forall₂ (fun l n => Shows n l.toList) ((lines s).filter (IsNumeric ·)) ns := by
  rw [readLineNumbers_eq, filterMap_eq_iff_forall₂]
  simp only [lineNumber_eq_some_iff_shows, isNumeric_iff, Bool.decide_eq_true]

/-- Each number is written on a line of its own. -/
theorem lines_writeLineNumbers (ns : List Nat) : lines (writeLineNumbers ns) = ns.map natText := by
  have hlacks {c : Char} (hc : isDigit c = false) : ∀ l ∈ ns.map writeNat, c ∉ l := by
    intro l hl
    obtain ⟨n, -, rfl⟩ := List.mem_map.mp hl
    exact not_mem_writeNat hc n
  have hkeep : (ns.map writeNat).map dropReturn = ns.map writeNat :=
    List.map_congr_left (fun l hl => dropReturn_of_not_mem (hlacks (by decide) l hl)) |>.trans
      (List.map_id _)
  rw [lines, writeLineNumbers, String.toList_ofList, lineChars_unlinesChars (hlacks (by decide)),
    hkeep, List.map_map]
  rfl

theorem writeLineNumbers_eq_join (ns : List Nat) :
    writeLineNumbers ns = String.join (ns.map fun n => toString n ++ "\n") := by
  rw [← String.toList_inj, writeLineNumbers, String.toList_ofList, String.toList_join]
  induction ns with
  | nil => rfl
  | cons n ns ih =>
    rw [List.map_cons, unlinesChars, ih, List.map_cons, List.flatMap_cons, ← natText_eq_toString]
    simp [natText]

/-- Of the numbers that are written those are read back that a line can have. -/
theorem readLineNumbers_writeLineNumbers_eq_filter (ns : List Nat) :
    readLineNumbers (writeLineNumbers ns) = ns.filter fun n => 0 < n && n < lineLimit := by
  rw [readLineNumbers_eq, lines_writeLineNumbers, List.filterMap_map, ← List.filterMap_eq_filter]
  refine List.filterMap_congr fun n _ => ?_
  rw [Function.comp_apply, natText, String.toList_ofList, lineNumber_writeNat]

theorem readLineNumbers_writeLineNumbers {ns : List Nat} (h : ∀ n ∈ ns, IsLine n) :
    readLineNumbers (writeLineNumbers ns) = ns := by
  rw [readLineNumbers_writeLineNumbers_eq_filter, List.filter_eq_self]
  intro n hn
  simpa [IsLine] using h n hn

theorem readLineNumbers_writeLineNumbers_of_lt {ns : List Nat} (h : ∀ n ∈ ns, n < lineLimit) :
    readLineNumbers (writeLineNumbers ns) = ns.filter (0 < ·) := by
  rw [readLineNumbers_writeLineNumbers_eq_filter]
  refine List.filter_congr fun n hn => ?_
  simp [h n hn]

/-! ## Files -/

theorem load_apply (p : Path) (w : World) :
    load p w = match w.disk.readText p with
      | .ok s => (.ok (readLineNumbers s), w)
      | .error e => (.error (.io e), w) := by
  have hask := Action.ask_apply (·.readText p) w
  rw [load]
  cases h : w.disk.readText p with
  | ok s => rw [h] at hask; rw [bind_of_ok hask]; rfl
  | error e => rw [h] at hask; rw [bind_of_error hask]

theorem store_apply {p : Path} {w : World} (hout : w.disk.Writable p) (ns : List Nat) :
    ∃ d', w.disk.write p (writeLineNumbers ns).toUTF8 false = .ok d' ∧
      store p ns w = (.ok (), { w with disk := d' }) := by
  obtain ⟨d', hwrite⟩ := write_isOk.mpr hout
  refine ⟨d', hwrite, ?_⟩
  rw [store, Action.change_apply, writeText, hwrite]

/-- What is stored in a file is the text that is loaded from it. -/
theorem store_load {p : Path} {w : World} (hout : w.disk.Writable p)
    (hdevice : ¬ w.disk.IsDevice p) (ns : List Nat) :
    ∃ w', store p ns w = (.ok (), w') ∧ w'.disk.readText p = .ok (writeLineNumbers ns) ∧
      load p w' = (.ok (readLineNumbers (writeLineNumbers ns)), w') := by
  obtain ⟨d', hwrite, hstore⟩ := store_apply hout ns
  have htext : d'.readText p = .ok (writeLineNumbers ns) :=
    readText_of_read (read_write hwrite hdevice) (fromUTF8?_toUTF8 _)
  refine ⟨{ w with disk := d' }, hstore, htext, ?_⟩
  rw [load_apply, htext]

/-- Numbers are written in decimal, one a line, and read back in order and with repetitions, all but
the zeros; the numbers read from any text are those that its lines show; so what was read is
written and read again without a change, and the same comes back from a file in which it is
stored. -/
theorem numbers_read_back :
    (∀ ns : List Nat, writeLineNumbers ns = String.join (ns.map fun n => toString n ++ "\n")) ∧
    (∀ ns : List Nat, (∀ n ∈ ns, n < lineLimit) →
      readLineNumbers (writeLineNumbers ns) = ns.filter (0 < ·)) ∧
    (∀ (s : String) (ns : List Nat), readLineNumbers s = ns ↔
      List.Forall₂ (fun l n => Shows n l.toList)
        ((lines s).filter (IsNumeric ·)) ns) ∧
    (∀ s : String, readLineNumbers (writeLineNumbers (readLineNumbers s)) = readLineNumbers s) ∧
    ∀ (ns : List Nat) (p : Path) (w : World), (∀ n ∈ ns, n < lineLimit) → w.disk.Writable p →
      ¬ w.disk.IsDevice p → ∃ w', store p ns w = (.ok (), w') ∧
        w'.disk.readText p = .ok (writeLineNumbers ns) ∧
        load p w' = (.ok (ns.filter (0 < ·)), w') := by
  refine ⟨writeLineNumbers_eq_join, fun ns => readLineNumbers_writeLineNumbers_of_lt,
    fun s ns => readLineNumbers_eq_iff,
    fun s => readLineNumbers_writeLineNumbers fun n => isLine_of_mem,
    fun ns p w hns hout hdevice => ?_⟩
  obtain ⟨w', hstore, htext, hload⟩ := store_load hout hdevice ns
  rw [readLineNumbers_writeLineNumbers_of_lt hns] at hload
  exact ⟨w', hstore, htext, hload⟩

/-- A file to be written over, behind a link. -/
def sampleShelf : Disk where
  entries := [(["old.txt"], .file 0 "9\n99\n999\n".toUTF8 false), (["new.txt"], .link "old.txt")]
  cwd := []
  nextId := 1
  locked := []

def sampleNumbers : List Nat := [4294967295, 0, 7, 7, 10, 0]

/-- Numbers with blanks around and zeros in front, among lines that show none. -/
def sampleText : String := "\u3000007 \r\n+5\n4294967296\n-3\n7x\n0\n\n7\n 4294967295\r"

theorem numbers_read_back_sample :
    (∀ n ∈ sampleNumbers, n < lineLimit) ∧ sampleShelf.Writable ⟨"/new.txt"⟩ ∧
    ¬ sampleShelf.IsDevice ⟨"/new.txt"⟩ ∧
    readLineNumbers (writeLineNumbers sampleNumbers) = [4294967295, 7, 7, 10] ∧
    List.Forall₂ (fun l n => Shows n l.toList) ((lines sampleText).filter (IsNumeric ·))
      [7, 7, 4294967295] ∧
    ∃ w', store ⟨"/new.txt"⟩ sampleNumbers (.ofDisk sampleShelf) = (.ok (), w') ∧
      w'.disk.readText ⟨"/new.txt"⟩ = .ok "4294967295\n0\n7\n7\n10\n0\n" ∧
      load ⟨"/new.txt"⟩ w' = (.ok [4294967295, 7, 7, 10], w') := by
  have hlimit : ∀ n ∈ sampleNumbers, n < lineLimit := by decide
  have hlocate : sampleShelf.locate .file ⟨"/new.txt"⟩ = .ok ["old.txt"] := by decide +kernel
  have hnode : sampleShelf.get? ["old.txt"] =
      some (.file 0 "9\n99\n999\n".toUTF8 false) := by decide +kernel
  have hout : sampleShelf.Writable ⟨"/new.txt"⟩ :=
    ⟨["old.txt"], hlocate, by rw [hnode]; nofun, fun target => by rw [hnode]; nofun⟩
  have hdevice : ¬ sampleShelf.IsDevice ⟨"/new.txt"⟩ := by
    rintro ⟨l, hl⟩
    have hstat : sampleShelf.stat ⟨"/new.txt"⟩ =
        .ok (["old.txt"], .file 0 "9\n99\n999\n".toUTF8 false) := by decide +kernel
    cases hstat.symm.trans hl
  have hkept : sampleNumbers.filter (0 < ·) = [4294967295, 7, 7, 10] := by decide
  have htext : writeLineNumbers sampleNumbers = "4294967295\n0\n7\n7\n10\n0\n" := by decide +kernel
  obtain ⟨-, hback, hshown, -, hfile⟩ := numbers_read_back
  obtain ⟨w', hstore, hread, hload⟩ := hfile _ _ (.ofDisk sampleShelf) hlimit hout hdevice
  exact ⟨hlimit, hout, hdevice, hkept ▸ hback _ hlimit, (hshown _ _).mp (by decide +kernel),
    w', hstore, htext ▸ hread, hkept ▸ hload⟩

end Whittle.Slice
