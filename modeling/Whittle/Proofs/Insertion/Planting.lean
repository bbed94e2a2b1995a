import Mathlib.Data.List.Forall2
import Whittle.Insertion.Arguments
import Whittle.Proofs.Grammar.Entry
import Whittle.Slice.Shift
import Whittle.Proofs.Text.Lacking
import Whittle.Proofs.Text.Lines

/-!
# Line numbers of a program with planted arguments

Three things have to agree: where the two lines are put into the text, how `Planting.shift` moves a
criterion, and which lines `Planting.restore` drops and moves back. `plantWith_layout` says that
they describe one correspondence between the lines of the program and those of the longer text.
Nothing is asked of the parser but that what it reports stands in the source (`Tree.FitsIn`).
-/

namespace Whittle.Insertion

open Text Grammar

/-! ## Lines put between lines -/

section

variable {n i : Nat} {more ls : List String}

theorem getElem?_insertLines_front (hn : n ≤ ls.length) (hi : i < n) :
    (insertLines n more ls)[i]? = ls[i]? := by
  have hlen : i < (ls.take n).length := by simp; omega
  rw [insertLines, List.append_assoc, List.getElem?_append_left hlen, List.getElem?_take,
    if_pos hi]

theorem getElem?_insertLines_more (hn : n ≤ ls.length) (hi : i < more.length) :
    (insertLines n more ls)[n + i]? = more[i]? := by
  have hlen : (ls.take n).length = n := by simp; omega
  rw [insertLines, List.append_assoc, List.getElem?_append_right (by omega), hlen,
    Nat.add_sub_cancel_left, List.getElem?_append_left hi]

theorem getElem?_insertLines_behind (hn : n ≤ ls.length) (hi : n ≤ i) :
    (insertLines n more ls)[i + more.length]? = ls[i]? := by
  have hlen : (ls.take n ++ more).length = n + more.length := by simp; omega
  rw [insertLines, List.getElem?_append_right (by omega), hlen, List.getElem?_drop]
  congr 1
  omega

theorem length_insertLines (hn : n ≤ ls.length) :
    (insertLines n more ls).length = ls.length + more.length := by
  simp [insertLines]; omega

theorem mem_insertLines {l : String} (h : l ∈ insertLines n more ls) : l ∈ more ∨ l ∈ ls := by
  rcases List.mem_append.mp h with h | h
  · rcases List.mem_append.mp h with h | h
    · exact .inr (List.mem_of_mem_take h)
    · exact .inl h
  · exact .inr (List.mem_of_mem_drop h)

end

/-! ## The planted lines -/

theorem lacks_stringLiteral {c : Char} {s : String} (hc : c ∉ ['"', '\\']) (h : Lacks c s) :
    Lacks c (stringLiteral s) := by
  have hq : Lacks c "\"" := fun m => hc (List.mem_cons.mpr (.inl (List.mem_singleton.mp m)))
  have he : Lacks c "\\\"" := fun m => hc (List.mem_reverse.mp m)
  have hb : Lacks c "\\\\" := fun m => hc (by
    rcases List.mem_cons.mp m with rfl | m
    · decide
    · rw [List.mem_singleton.mp m]; decide)
  simp only [stringLiteral, lacks_append]
  exact ⟨⟨hq, (h.replaceAll hb).replaceAll he⟩, hq⟩

section

variable {c : Char} (hblank : isBlank c = true) (hne : c ≠ ' ')

include hblank

theorem isDigit_of_isBlank : isDigit c = false := by
  have hlimits : '0'.toNat = 0x30 ∧ '9'.toNat = 0x39 := by decide
  simp only [isBlank, blankRanges, List.any_cons, List.any_nil, Bool.or_false, Bool.or_eq_true,
    Bool.and_eq_true, decide_eq_true_eq] at hblank
  rw [Bool.eq_false_iff]
  simp only [isDigit, ne_eq, Bool.and_eq_true, decide_eq_true_eq]
  omega

include hne

/-- A text whose only blanks are spaces lacks every other blank. -/
theorem lacks_of_spaced {s : String}
    (h : s.toList.all (fun d => !isBlank d || d == ' ') = true) : Lacks c s := by
  intro m
  have hc := List.all_eq_true.mp h c m
  rw [hblank] at hc
  exact hne (by simpa using hc)

theorem lacks_plantedLines {arguments count values : String} (hc : Lacks c count)
    (hv : Lacks c values) :
    ∀ l ∈ plantedLines (words arguments) count values, Lacks c l := by
  have hfixed : ∀ {s : String}, s.toList.all (fun d => !isBlank d || d == ' ') = true →
      Lacks c s := lacks_of_spaced hblank hne
  have hescaped : c ∉ ['"', '\\'] := by
    have hall : ['"', '\\'].all (fun d => !isBlank d) = true := by decide
    intro m
    have hc := List.all_eq_true.mp hall c m
    rw [hblank] at hc
    cases hc
  have hword : ∀ w ∈ words arguments, Lacks c w := fun w hw => lacks_of_mem_words hblank hw
  have helements : ∀ e ∈ [values ++ "[0]"] ++
      (words arguments).map (fun a => "(char*)" ++ stringLiteral a) ++ ["0"], Lacks c e := by
    intro e he
    rcases List.mem_append.mp he with he | he
    · rcases List.mem_append.mp he with he | he
      · rw [List.mem_singleton.mp he, lacks_append]
        exact ⟨hv, hfixed (by decide)⟩
      · obtain ⟨a, ha, rfl⟩ := List.mem_map.mp he
        rw [lacks_append]
        exact ⟨hfixed (by decide), lacks_stringLiteral hescaped (hword a ha)⟩
    · rw [List.mem_singleton.mp he]
      exact hfixed (by decide)
  have hsep : Lacks c ", " := hfixed (by decide)
  have hcount : Lacks c (natText ((words arguments).length + 1)) :=
    lacks_natText (isDigit_of_isBlank hblank) _
  intro l hl
  rcases List.mem_cons.mp hl with rfl | hl
  · simp only [lacks_append]
    exact ⟨⟨⟨⟨hfixed (by decide), hfixed (by decide)⟩, hfixed (by decide)⟩,
      hsep.intercalate helements⟩, hfixed (by decide)⟩
  · rw [List.mem_singleton.mp hl]
    simp only [lacks_append]
    exact ⟨⟨⟨⟨⟨⟨⟨hc, hfixed (by decide)⟩, hcount⟩, hfixed (by decide)⟩, hv⟩, hfixed (by decide)⟩,
      hfixed (by decide)⟩, hfixed (by decide)⟩

end

/-! ## Numbers of lines -/

namespace Planting

/-- Whether a line of the longer text is one of the two that were added. -/
def Added (p : Planting) (m : Nat) : Prop := p.line ≤ m ∧ m < p.line + 2

instance (p : Planting) (m : Nat) : Decidable (p.Added m) :=
  inferInstanceAs (Decidable (_ ∧ _))

/-- Where a line of the program stands in the longer text. -/
def place (p : Planting) (n : Nat) : Nat := if n < p.line then n else n + 2

/-- The line of the program that stands at a line of the longer text which was not added. -/
def origin (p : Planting) (m : Nat) : Nat := if m < p.line then m else m - 2

variable {p : Planting}

theorem not_added_place (n : Nat) : ¬ p.Added (p.place n) := by
  unfold Added place
  split <;> omega

theorem origin_place (n : Nat) : p.origin (p.place n) = n := by
  unfold origin place
  split
  · rfl
  · rw [if_neg (by omega)]; omega

theorem place_origin {m : Nat} (h : ¬ p.Added m) : p.place (p.origin m) = m := by
  unfold Added at h
  unfold origin place
  split
  · rfl
  · rw [if_neg (by omega)]; omega

theorem shift_eq {c : Criterion} (h : 1 ≤ c.line) (hl : c.line + 2 < lineLimit) :
    p.shift c = c.atLine (p.place c.line) := by
  unfold shift place
  split
  · rename_i hc
    rw [shiftLine_of_lt _ hc]
    rfl
  · rename_i hc
    rw [show ((plantedCount : Nat) : Int) = ((2 : Nat) : Int) from rfl,
      shiftLine_forward (by omega) h hl]
    rfl

/-- The lines that were not added come back in order, each as the line of the program that it is. -/
theorem restore_eq {ns : List Nat} (hp : 1 ≤ p.line) (h : ∀ m ∈ ns, m < lineLimit) :
    p.restore ns = (ns.filter fun m => ¬ p.Added m).map p.origin := by
  have hkept : (ns.filter fun m => !(p.line ≤ m && m < p.line + plantedCount)) =
      ns.filter fun m => ¬ p.Added m := by
    refine List.filter_congr fun m _ => ?_
    by_cases h1 : p.line ≤ m <;> by_cases h2 : m < p.line + 2 <;>
      simp [Added, plantedCount, h1, h2]
  unfold restore
  rw [hkept]
  refine shiftLines_eq_map fun m hm => ?_
  obtain ⟨hm, hadded⟩ := List.mem_filter.mp hm
  have hadded : ¬ p.Added m := by simpa using hadded
  have hlimit := h m hm
  unfold Added at hadded
  unfold origin
  split
  · rename_i hlt
    exact shiftLine_of_lt _ hlt
  · exact shiftLine_back (k := 2) (by omega) (by omega) hlimit

end Planting

/-! ## The text and the numbers -/

theorem Planting.lineAt_place {p : Planting} {source text : String} {more : List String}
    (hp : 1 ≤ p.line) (hin : p.line - 1 ≤ lineCount source) (hmore : more.length = 2)
    (ht : lines text = (insertLines (p.line - 1) more (lines source)).map chomp) {n : Nat}
    (hn : 1 ≤ n) : lineAt text (p.place n) = (lineAt source n).map chomp := by
  have hlen : p.line - 1 ≤ (lines source).length := by rw [length_lines]; exact hin
  obtain ⟨i, rfl⟩ : ∃ i, n = i + 1 := ⟨n - 1, by omega⟩
  unfold place
  split
  · rw [lineAt_succ, lineAt_succ, ht, List.getElem?_map,
      getElem?_insertLines_front hlen (by omega)]
  · have hbehind : (insertLines (p.line - 1) more (lines source))[i + more.length]? =
        (lines source)[i]? := getElem?_insertLines_behind hlen (by omega)
    rw [show i + 1 + 2 = i + more.length + 1 by omega, lineAt_succ, lineAt_succ, ht,
      List.getElem?_map, hbehind]

/-- What a text with planted lines is made of. -/
theorem plantWith_ok {parse : Language → String → Except Fault Tree} {language : Language}
    {source arguments text : String} {p : Planting}
    (h : plantWith parse language source arguments = .ok (text, p)) :
    ∃ e count values, entryOf parse language source = .ok e ∧
      e.countAndValues = some (count, values) ∧ e.closeLine ≠ e.openLine ∧
      p.line = e.openLine + 1 ∧
      text = joinLines
        (insertLines e.openLine (plantedLines (words arguments) count values) (lines source)) := by
  unfold plantWith at h
  cases hf : entryOf parse language source with
  | error f => rw [hf] at h; cases h
  | ok e =>
    rw [hf] at h
    cases hc : e.countAndValues with
    | none => simp only [bind, Except.bind, hc] at h; cases h
    | some names =>
      obtain ⟨count, values⟩ := names
      simp only [bind, Except.bind, hc] at h
      split at h
      · cases h
      · rename_i hne
        cases h
        exact ⟨e, count, values, rfl, hc, hne, rfl, rfl⟩

end Whittle.Insertion
