import Mathlib.Data.List.Forall2
import Whittle.Insertion.Guard
import Whittle.Proofs.Criterion
import Whittle.Proofs.Insertion.Planting
import Whittle.Slice.Shift
import Whittle.Proofs.Text.Lacking
import Whittle.Proofs.Text.Lines

/-!
# Line numbers of a guarded program

The header moves every line by one and the guard moves those from the failure line on by one more.
`Guard.restore` takes both back one after the other, so the second step meets lines that the first
has moved; `Guard.restore_eq` says what the two amount to. `guardSource_layout` puts this beside
the text.
-/

namespace Whittle.Insertion

open Text

namespace Guard

/-- Where a line of the program stands in the guarded text. -/
def place (g : Guard) (n : Nat) : Nat := if n < g.failureLine then n + 1 else n + 2

/-- The line of the program at a line of the guarded text other than header and guard. -/
def origin (g : Guard) (m : Nat) : Nat := if m < g.line then m - 1 else m - 2

variable {g : Guard}

theorem place_origin {m : Nat} (hm : 1 ≤ m) (hg : m ≠ g.line) : g.place (g.origin m) = m := by
  unfold line at hg
  unfold place origin line
  split
  · rw [if_pos (by omega)]; omega
  · rw [if_neg (by omega)]; omega

theorem origin_bounds {m total : Nat} (hf : 1 ≤ g.failureLine) (hin : g.failureLine ≤ total)
    (hm : 1 ≤ m) (hle : m ≤ total + 2) (hh : m ≠ 1) (hg : m ≠ g.line) :
    1 ≤ g.origin m ∧ g.origin m ≤ total := by
  unfold line at hg
  unfold origin line
  split <;> omega

theorem shiftLine_drop_one {n threshold : Nat} (ht : 2 ≤ threshold) (hl : n < lineLimit) :
    shiftLine n threshold (-1) = some (if n < threshold then n else n - 1) := by
  split
  · rename_i hn
    exact shiftLine_of_lt _ hn
  · exact shiftLine_back (k := 1) (by omega) (by omega) hl

theorem restore_eq {ns : List Nat} (hf : 1 ≤ g.failureLine) (h : ∀ m ∈ ns, m < lineLimit) :
    g.restore ns = (ns.filter fun m => m ≠ 1 ∧ m ≠ g.line).map g.origin := by
  have hline : g.line = g.failureLine + 1 := rfl
  have hbehind : shiftLines (ns.filter fun m => m ≠ 1 ∧ m ≠ g.line) (g.line + 1) (-1) =
      (ns.filter fun m => m ≠ 1 ∧ m ≠ g.line).map
        fun m => if m < g.line + 1 then m else m - 1 :=
    shiftLines_eq_map fun m hm =>
      shiftLine_drop_one (by omega) (h m (List.mem_filter.mp hm).1)
  have hfront : ∀ m ∈ (ns.filter fun m => m ≠ 1 ∧ m ≠ g.line).map
        (fun m => if m < g.line + 1 then m else m - 1),
      shiftLine m 2 (-1) = some (if m < 2 then m else m - 1) := by
    intro m hm
    obtain ⟨k, hk, rfl⟩ := List.mem_map.mp hm
    have := h k (List.mem_filter.mp hk).1
    exact shiftLine_drop_one (by omega) (by split <;> omega)
  simp only [restore]
  rw [hbehind, shiftLines_eq_map hfront, List.map_map]
  refine List.map_congr_left fun m hm => ?_
  obtain ⟨-, hm⟩ := List.mem_filter.mp hm
  obtain ⟨hh, hg⟩ : m ≠ 1 ∧ m ≠ g.line := by simpa using hm
  simp only [Function.comp_apply, origin]
  -- a line behind the guard is still behind the header when the first step has moved it
  by_cases hlt : m < g.line
  · rw [if_pos (show m < g.line + 1 by omega), if_pos hlt]
    split <;> omega
  · rw [if_neg (show ¬ m < g.line + 1 by omega), if_neg hlt, if_neg (by omega)]
    omega

/-! ## The guard as a line -/

theorem lacks_text {c : Char} {language : Language} {cs : List Criterion}
    (hcall : Lacks c language.exitCall) (hspace : Lacks c " ") (hopen : Lacks c "(void)(")
    (hclose : Lacks c ");") (hnames : ∀ v ∈ cs.map Criterion.name, Lacks c v) :
    Lacks c (text language cs) := by
  refine hspace.intercalate fun l hl => ?_
  rcases List.mem_append.mp hl with hl | hl
  · obtain ⟨v, hv, rfl⟩ := List.mem_map.mp hl
    have hv := ((Criterion.firstOccurrences_distinctNames cs).same v).mp hv
    exact (hopen.append (hnames v hv)).append hclose
  · rw [List.mem_singleton.mp hl]
    exact hcall

theorem text_is_line (language : Language) (content : String) :
    Lacks '\n' (text language (Criterion.wellFormed content)) ∧
      Lacks '\r' (text language (Criterion.wellFormed content)) := by
  have hname {c : Char} (hc : Criterion.continuesIdentifier c = false) :
      ∀ v ∈ (Criterion.wellFormed content).map Criterion.name, Lacks c v := by
    intro v hv
    obtain ⟨d, hd, rfl⟩ := List.mem_map.mp hv
    exact Criterion.lacks_of_isIdentifier hc (Criterion.isIdentifier_of_mem_wellFormed hd)
  constructor
  · exact lacks_text (by cases language <;> decide) (by decide) (by decide) (by decide)
      (hname (by decide))
  · exact lacks_text (by cases language <;> decide) (by decide) (by decide) (by decide)
      (hname (by decide))

/-! ## The text and the numbers -/

theorem lineAt_place {source text header guard : String} (hf : 1 ≤ g.failureLine)
    (hin : g.failureLine ≤ lineCount source)
    (ht : lines text =
      (header :: insertLines (g.failureLine - 1) [guard] (lines source)).map chomp)
    {n : Nat} (hn : 1 ≤ n) : lineAt text (g.place n) = (lineAt source n).map chomp := by
  have hlen : g.failureLine - 1 ≤ (lines source).length := by rw [length_lines]; omega
  obtain ⟨i, rfl⟩ : ∃ i, n = i + 1 := ⟨n - 1, by omega⟩
  unfold place
  split
  · rw [lineAt_succ, lineAt_succ, ht, List.map_cons, List.getElem?_cons_succ, List.getElem?_map,
      getElem?_insertLines_front hlen (by omega)]
  · have hbehind : (insertLines (g.failureLine - 1) [guard] (lines source))[i + [guard].length]? =
        (lines source)[i]? := getElem?_insertLines_behind hlen (by omega)
    rw [show i + 1 + 2 = i + [guard].length + 1 + 1 from rfl, lineAt_succ, lineAt_succ, ht,
      List.map_cons, List.getElem?_cons_succ, List.getElem?_map, hbehind]

theorem lineAt_line {source text header guard : String} (hf : 1 ≤ g.failureLine)
    (hin : g.failureLine ≤ lineCount source)
    (ht : lines text =
      (header :: insertLines (g.failureLine - 1) [guard] (lines source)).map chomp) :
    lineAt text g.line = some (chomp guard) := by
  have hlen : g.failureLine - 1 ≤ (lines source).length := by rw [length_lines]; omega
  have hmore : (insertLines (g.failureLine - 1) [guard] (lines source))[g.failureLine - 1 + 0]? =
      [guard][0]? := getElem?_insertLines_more hlen (by simp)
  obtain ⟨k, hk⟩ : ∃ k, g.failureLine = k + 1 := ⟨g.failureLine - 1, by omega⟩
  rw [hk, Nat.add_sub_cancel] at ht hmore
  rw [Nat.add_zero] at hmore
  rw [line, lineAt_succ, hk, ht, List.map_cons, List.getElem?_cons_succ, List.getElem?_map, hmore]
  rfl

end Guard

theorem guardSource_eq_error {language : Language} {source : String} {failureLine : Nat}
    {cs : List Criterion} (h : ¬ (1 ≤ failureLine ∧ failureLine ≤ lineCount source)) :
    guardSource language source failureLine cs =
      .error (.lineOutsideSource failureLine (lineCount source)) := by
  rw [← length_lines] at h ⊢
  exact if_pos (by omega)

theorem guardSource_eq_ok {language : Language} {source : String} {failureLine : Nat}
    {cs : List Criterion} (h : 1 ≤ failureLine) (hin : failureLine ≤ lineCount source) :
    guardSource language source failureLine cs =
      .ok (joinLines (language.exitHeader ::
        insertLines (failureLine - 1) [Guard.text language cs] (lines source)), ⟨failureLine⟩) := by
  rw [← length_lines] at hin
  exact if_neg (by omega)

end Whittle.Insertion
