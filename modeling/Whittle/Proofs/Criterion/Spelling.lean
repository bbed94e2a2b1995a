import Whittle.Proofs.Criterion
import Whittle.Proofs.Slice.Numbers
import Whittle.Proofs.Text.Blanks

/-!
# How criteria are spelled

`Spells cs c` is the grammar of a criterion: a line number and an identifier with a colon between
them, and blanks around either. `read` accepts exactly these texts, among them the one that
`Criterion.text` writes; and the criteria of a listing are those on the lines that spell one,
whatever stands on the others (`read_spellings`).
-/

namespace Whittle.Criterion

open Text

/-- A line number as criteria have it: decimal digits, maybe behind a plus sign. -/
inductive Numeral (n : Nat) : List Char → Prop where
  | plain {ds : List Char} (some_digit : ds ≠ []) (digits : ∀ d ∈ ds, isDigit d = true)
      (value : digitsValue 0 ds = n) : Numeral n ds
  | signed {ds : List Char} (some_digit : ds ≠ []) (digits : ∀ d ∈ ds, isDigit d = true)
      (value : digitsValue 0 ds = n) : Numeral n ('+' :: ds)

/-- A text that spells a criterion. -/
inductive Spells : List Char → Criterion → Prop where
  | mk {number name b₁ b₂ b₃ b₄ : List Char} {line : Nat} (blank₁ : AllBlank b₁)
      (blank₂ : AllBlank b₂) (blank₃ : AllBlank b₃) (blank₄ : AllBlank b₄)
      (numeral : Numeral line number) (isLine : Slice.IsLine line)
      (identifier : isIdentifier name = true) :
      Spells (b₁ ++ number ++ b₂ ++ ':' :: (b₃ ++ name ++ b₄)) ⟨line, String.ofList name⟩

/-- Lines with criteria on some of them, in order, and no criterion on the others. -/
inductive Listing : List String → List Criterion → Prop where
  | nil : Listing [] []
  | noise {l : String} {ls : List String} {cs : List Criterion}
      (no_criterion : ∀ c, ¬ Spells l.toList c) (rest : Listing ls cs) : Listing (l :: ls) cs
  | entry {l : String} {ls : List String} {c : Criterion} {cs : List Criterion}
      (spells : Spells l.toList c) (rest : Listing ls cs) : Listing (l :: ls) (c :: cs)

/-! ## Numerals -/

theorem readLine_eq_some_iff {cs : List Char} {n : Nat} :
    readLine cs = some n ↔ Numeral n cs ∧ n < lineLimit := by
  have hplus : isDigit '+' = false := by decide
  unfold readLine
  rw [Option.filter_eq_some_iff, decide_eq_true_eq]
  refine and_congr_left fun _ => ?_
  split
  · rename_i ds
    rw [readNat_eq_some_iff]
    refine ⟨fun h => .signed h.1 h.2.1 h.2.2, fun h => ?_⟩
    cases h with
    | plain _ digits _ => exact absurd (digits '+' List.mem_cons_self) (by simp [hplus])
    | signed h₁ h₂ h₃ => exact ⟨h₁, h₂, h₃⟩
  · rename_i hsign
    rw [readNat_eq_some_iff]
    refine ⟨fun h => .plain h.1 h.2.1 h.2.2, fun h => ?_⟩
    cases h with
    | plain h₁ h₂ h₃ => exact ⟨h₁, h₂, h₃⟩
    | signed _ _ _ => exact absurd rfl (hsign _)

theorem Numeral.mem {n : Nat} {cs : List Char} (h : Numeral n cs) {d : Char} (hd : d ∈ cs) :
    d = '+' ∨ isDigit d = true := by
  cases h with
  | plain _ digits _ => exact .inr (digits d hd)
  | signed _ digits _ => exact (List.mem_cons.mp hd).imp_right (digits d)

theorem Numeral.trimmed {n : Nat} {cs : List Char} (h : Numeral n cs) : Trimmed cs := by
  refine trimmed_of_not_blank fun d hd => ?_
  rcases h.mem hd with rfl | hd
  · decide
  · exact Slice.isBlank_of_isDigit hd

theorem Numeral.no_colon {n : Nat} {cs : List Char} (h : Numeral n cs) : ':' ∉ cs := by
  intro hd
  rcases h.mem hd with e | hd
  · cases e
  · cases hd

theorem numeral_writeNat (n : Nat) : Numeral n (writeNat n) :=
  .plain (writeNat_ne_nil n) (List.all_eq_true.mp (all_isDigit_writeNat n))
    (digitsValue_writeNat n)

/-! ## Identifiers -/

theorem not_blank_of_continues {c : Char} (h : continuesIdentifier c = true) :
    isBlank c = false := by
  rw [continuesIdentifier, Bool.or_eq_true, Bool.or_eq_true, decide_eq_true_eq] at h
  rcases h with (h | h) | rfl
  · simp only [isLetter, Bool.or_eq_true, Bool.and_eq_true, decide_eq_true_eq, Char.reduceToNat]
      at h
    simp [isBlank, blankRanges]
    omega
  · exact Slice.isBlank_of_isDigit h
  · decide

theorem trimmed_of_isIdentifier {name : List Char} (h : isIdentifier name = true) :
    Trimmed name := by
  refine trimmed_of_not_blank fun c hc => not_blank_of_continues ?_
  by_contra hcontinues
  have h' : isIdentifier (String.ofList name).toList = true := by rwa [String.toList_ofList]
  refine lacks_of_isIdentifier (by simpa using hcontinues) h' ?_
  rwa [String.toList_ofList]

/-! ## Reading -/

theorem splitColon_eq_some_iff {cs before behind : List Char} :
    splitColon cs = some (before, behind) ↔ ':' ∉ before ∧ cs = before ++ ':' :: behind := by
  induction cs generalizing before with
  | nil => simp [splitColon]
  | cons c cs ih =>
    rw [splitColon]
    split
    · rename_i hc
      subst hc
      cases before with
      | nil => simp [eq_comm]
      | cons d ds => simp +contextual
    · rename_i hc
      simp only [Option.map_eq_some_iff, Prod.exists, Prod.mk.injEq]
      constructor
      · rintro ⟨front, back, hsplit, rfl, rfl⟩
        obtain ⟨hfront, rfl⟩ := ih.mp hsplit
        exact ⟨by simp [hfront, Ne.symm hc], rfl⟩
      · rintro ⟨hbefore, hcs⟩
        cases before with
        | nil => exact absurd (List.cons.inj hcs).1 hc
        | cons d ds =>
          obtain ⟨rfl, hrest⟩ := List.cons.inj hcs
          have hds : ':' ∉ ds := fun hm => hbefore (List.mem_cons_of_mem _ hm)
          exact ⟨ds, behind, ih.mpr ⟨hds, hrest⟩, rfl, rfl⟩

theorem Numeral.ne_nil {n : Nat} {cs : List Char} (h : Numeral n cs) : cs ≠ [] := by
  cases h with
  | plain some_digit _ _ => exact some_digit
  | signed _ _ _ => exact List.cons_ne_nil _ _

theorem readChars_of_spells {cs : List Char} {c : Criterion} (h : Spells cs c) :
    readChars cs = some c := by
  cases h with
  | @mk number name b₁ b₂ b₃ b₄ line blank₁ blank₂ blank₃ blank₄ numeral isLine identifier =>
    have hname := trimmed_of_isIdentifier identifier
    have hne : name ≠ [] := by rintro rfl; cases identifier
    have hsplit : splitColon (number ++ b₂ ++ ':' :: (b₃ ++ name)) =
        some (number ++ b₂, b₃ ++ name) := by
      refine splitColon_eq_some_iff.mpr ⟨fun hm => ?_, rfl⟩
      rcases List.mem_append.mp hm with hm | hm
      · exact numeral.no_colon hm
      · cases blank₂ _ hm
    have htrim : trimChars (b₁ ++ number ++ b₂ ++ ':' :: (b₃ ++ name ++ b₄)) =
        number ++ b₂ ++ ':' :: (b₃ ++ name) := by
      have hcore := numeral.trimmed.around numeral.ne_nil hname hne (b₂ ++ ':' :: b₃)
      simpa using trimChars_padded blank₁ hcore blank₄
    have hnumber : trimChars (number ++ b₂) = number := by
      simpa using trimChars_padded .nil numeral.trimmed blank₂
    have hbehind : trimChars (b₃ ++ name) = name := by
      simpa using trimChars_padded blank₃ hname .nil
    have hline : readLine number = some line := readLine_eq_some_iff.mpr ⟨numeral, isLine.2⟩
    have hzero : line ≠ 0 := Nat.ne_of_gt isLine.1
    rw [readChars, htrim, hsplit]
    simp [hnumber, hbehind, hline, hzero, identifier]

theorem spells_of_readChars {cs : List Char} {c : Criterion} (h : readChars cs = some c) :
    Spells cs c := by
  unfold readChars at h
  simp only [bind, Option.bind_eq_some_iff] at h
  obtain ⟨⟨before, behind⟩, hsplit, line, hline, h⟩ := h
  split at h
  · cases h
  · rename_i hgood
    cases h
    obtain ⟨-, htrim⟩ := splitColon_eq_some_iff.mp hsplit
    obtain ⟨numeral, hlimit⟩ := readLine_eq_some_iff.mp hline
    obtain ⟨p, q, hp, hq, hcs⟩ := padding cs
    obtain ⟨p₁, q₁, hp₁, hq₁, hbefore⟩ := padding before
    obtain ⟨p₂, q₂, hp₂, hq₂, hbehind⟩ := padding behind
    have hspelled := Spells.mk (hp.append hp₁) hq₁ hp₂ (hq₂.append hq) numeral
      ⟨Nat.pos_of_ne_zero fun e => hgood (.inl e), hlimit⟩ (by simpa using fun e => hgood (.inr e))
    have hshape : cs = p ++ p₁ ++ trimChars before ++ q₁ ++
        ':' :: (p₂ ++ trimChars behind ++ (q₂ ++ q)) := by
      calc cs = p ++ (before ++ ':' :: behind) ++ q := by rw [← htrim, ← hcs]
        _ = p ++ (p₁ ++ trimChars before ++ q₁ ++ ':' :: (p₂ ++ trimChars behind ++ q₂)) ++ q := by
          rw [← hbefore, ← hbehind]
        _ = _ := by simp
    rw [hshape]
    exact hspelled

theorem readChars_eq_some_iff {cs : List Char} {c : Criterion} :
    readChars cs = some c ↔ Spells cs c :=
  ⟨spells_of_readChars, readChars_of_spells⟩

theorem read_eq_ok_iff {s : String} {c : Criterion} : read s = .ok c ↔ Spells s.toList c := by
  rw [← readChars_eq_some_iff, read]
  cases readChars s.toList with
  | none => simp
  | some d => simp

theorem read_eq_error_iff {s : String} :
    read s = .error (.badCriterion s) ↔ ∀ c, ¬ Spells s.toList c := by
  simp only [← readChars_eq_some_iff, read]
  cases readChars s.toList with
  | none => simp
  | some d => simp

theorem Spells.isLine {cs : List Char} {c : Criterion} (h : Spells cs c) : Slice.IsLine c.line := by
  cases h with
  | mk _ _ _ _ _ isLine _ => exact isLine

/-! ## Writing -/

/-- What is written of a criterion spells it. -/
theorem Spells.text {cs : List Char} {c : Criterion} (h : Spells cs c) :
    Spells c.text.toList c := by
  cases h with
  | mk blank₁ blank₂ blank₃ blank₄ numeral isLine identifier =>
    simpa [Criterion.text, natText, String.toList_append] using
      Spells.mk .nil .nil .nil .nil (numeral_writeNat _) isLine identifier

/-! ## Listings -/

/-- A carriage return at the end of a line is a blank like others. -/
theorem readChars_dropReturn (cs : List Char) : readChars (dropReturn cs) = readChars cs := by
  have htrim : trimChars (dropReturn cs) = trimChars cs := by
    rcases dropReturn_cases cs with h | h
    · rw [h]
    · have hreturn : AllBlank ['\r'] := by
        intro c hc
        rw [List.mem_singleton.mp hc]
        decide
      rw [← trimChars_append_blanks hreturn, h]
  rw [readChars, readChars, htrim]

theorem wellFormed_eq (s : String) : wellFormed s = (lineChars s.toList).filterMap readChars := by
  have hread (l : List Char) : (read (String.ofList l)).toOption = readChars l := by
    rw [read, String.toList_ofList]
    cases readChars l <;> rfl
  have hblank (l : List Char) (h : (trimChars l).isEmpty = true) : readChars l = none := by
    rw [readChars, List.isEmpty_iff.mp h]
    rfl
  rw [wellFormed, readLines, List.filterMap_map]
  induction lineChars s.toList with
  | nil => rfl
  | cons l ls ih =>
    rw [List.filterMap_cons, List.filter_cons]
    split
    · rw [List.filterMap_cons, Function.comp, hread, ih]
    · rename_i h
      rw [ih, hblank l (by simpa using h)]

/-- Joining lines neither makes nor breaks criteria, however the last line ends. -/
theorem filterMap_lineChars_intercalate {ls : List (List Char)} (h : ∀ l ∈ ls, '\n' ∉ l) :
    (lineChars (['\n'].intercalate ls)).filterMap readChars = ls.filterMap readChars := by
  induction ls with
  | nil => rfl
  | cons l ls ih =>
    have hl : '\n' ∉ l := h l List.mem_cons_self
    cases ls with
    | nil =>
      rw [List.intercalate_singleton]
      cases l with
      | nil => rfl
      | cons c cs => rw [lineChars_of_not_mem hl (List.cons_ne_nil c cs)]
    | cons k ks =>
      rw [List.intercalate_cons_cons, List.append_assoc, List.singleton_append,
        lineChars_append_newline hl, List.filterMap_cons, List.filterMap_cons,
        readChars_dropReturn, ih fun k hk => h k (List.mem_cons_of_mem _ hk)]

theorem Listing.filterMap_readChars {ls : List String} {cs : List Criterion} (h : Listing ls cs) :
    (ls.map String.toList).filterMap readChars = cs := by
  induction h with
  | nil => rfl
  | @noise l ls cs no_criterion _ ih =>
    have hnone : readChars l.toList = none := by
      rw [Option.eq_none_iff_forall_not_mem]
      exact fun c hc => no_criterion c (readChars_eq_some_iff.mp hc)
    rw [List.map_cons, List.filterMap_cons, hnone, ih]
  | @entry l ls c cs spells _ ih =>
    rw [List.map_cons, List.filterMap_cons, readChars_eq_some_iff.mpr spells, ih]

/-- The criteria of a listing are read off its text, with or without a line feed at its end. -/
theorem Listing.wellFormed_eq {ls : List String} {cs : List Criterion} (h : Listing ls cs)
    (hlines : ∀ l ∈ ls, '\n' ∉ l.toList) : wellFormed (String.intercalate "\n" ls) = cs := by
  have hlists : ∀ l ∈ ls.map String.toList, '\n' ∉ l := by
    intro l hl
    obtain ⟨k, hk, rfl⟩ := List.mem_map.mp hl
    exact hlines k hk
  rw [Criterion.wellFormed_eq, String.toList_intercalate, ← h.filterMap_readChars]
  exact filterMap_lineChars_intercalate hlists

/-- A text is read as a criterion exactly if it spells that criterion, and refused exactly if it
spells none; what is written of a criterion that was read is read as the same one; and of lines
joined by line feeds, those that spell a criterion are read, in order and with repetitions, and the
others are passed over. -/
theorem read_spellings :
    (∀ (s : String) (c : Criterion), read s = .ok c ↔ Spells s.toList c) ∧
    (∀ s : String, read s = .error (.badCriterion s) ↔ ∀ c, ¬ Spells s.toList c) ∧
    (∀ (s : String) (c : Criterion), read s = .ok c → read c.text = .ok c) ∧
    ∀ (ls : List String) (cs : List Criterion) (w : World), (∀ l ∈ ls, '\n' ∉ l.toList) →
      Listing ls cs → (readAll (String.intercalate "\n" ls) w).1 = .ok cs := by
  refine ⟨fun s c => read_eq_ok_iff, fun s => read_eq_error_iff, fun s c h => ?_,
    fun ls cs w hlines hlisting => ?_⟩
  · exact read_eq_ok_iff.mpr (read_eq_ok_iff.mp h).text
  · rw [readAll_eq, hlisting.wellFormed_eq hlines]

def sampleLines : List String := [" +012 : x_1\r", "", "4:\u00e9", "x:12", "12:x_1", "0:x", "7:y:z"]

def sampleCriteria : List Criterion := [⟨12, "x_1"⟩, ⟨12, "x_1"⟩]

theorem listing_sampleLines : Listing sampleLines sampleCriteria := by
  have hentry : Spells " +012 : x_1\r".toList ⟨12, "x_1"⟩ := readChars_eq_some_iff.mp (by decide)
  have hwritten : Spells "12:x_1".toList ⟨12, "x_1"⟩ := readChars_eq_some_iff.mp (by decide)
  have hnoise (l : String) (h : readChars l.toList = none) : ∀ c, ¬ Spells l.toList c := by
    intro c hc
    rw [readChars_eq_some_iff.mpr hc] at h
    cases h
  exact .entry hentry <| .noise (hnoise _ (by decide)) <| .noise (hnoise _ (by decide)) <|
    .noise (hnoise _ (by decide)) <| .entry hwritten <| .noise (hnoise _ (by decide)) <|
    .noise (hnoise _ (by decide)) .nil

theorem read_spellings_sampleLines :
    read " +012 : x_1\r" = .ok ⟨12, "x_1"⟩ ∧
    read (Criterion.text ⟨12, "x_1"⟩) = .ok ⟨12, "x_1"⟩ ∧
    (∀ l ∈ sampleLines, '\n' ∉ l.toList) ∧ Listing sampleLines sampleCriteria ∧
    ∀ w : World, (readAll (String.intercalate "\n" sampleLines) w).1 = .ok sampleCriteria := by
  have hread : read " +012 : x_1\r" = .ok ⟨12, "x_1"⟩ := by decide
  have hlines : ∀ l ∈ sampleLines, '\n' ∉ l.toList := by decide
  exact ⟨hread, read_spellings.2.2.1 _ _ hread, hlines, listing_sampleLines,
    fun w => read_spellings.2.2.2 _ _ w hlines listing_sampleLines⟩

end Whittle.Criterion
