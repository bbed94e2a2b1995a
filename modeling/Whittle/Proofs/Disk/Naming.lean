import Whittle.Proofs.Disk.Canonical
import Whittle.Proofs.Disk.Tree

/-!
# Paths that name a place

An absolute path that does not go up names a place, whatever dots and slashes stand in it
(`Path.Names`). If no link is on the way, that is the place where it leads (`Path.Names.locate`), and
where it is said to lead to nothing, nothing is (`Path.Names.gone`).
-/

namespace Whittle

open Text Disk

namespace Path

structure Names (p : Path) (m : Location) : Prop where
  absolute : p.isAbsolute = true
  ahead : ".." ∉ namesOf p.text
  place : lexical [] (namesOf p.text) = m

theorem names_pathOf {m : Location} (hm : ∀ n ∈ m, IsName n) : (pathOf m).Names m where
  absolute := isAbsolute_pathOf m
  ahead hup := by
    rw [namesOf_pathOf hm] at hup
    exact (hm _ hup).2.2.1 rfl
  place := by rw [namesOf_pathOf hm, lexical_names hm, List.nil_append]

/-! ## Paths in a directory -/

theorem namesOf_append_slash (a b : String) : namesOf (a ++ "/" ++ b) = namesOf a ++ namesOf b := by
  have hchars : (a ++ "/" ++ b).toList = a.toList ++ '/' :: b.toList := by
    rw [String.toList_append, String.toList_append, List.append_assoc]
    rfl
  simp only [namesOf, segments, segmentChars, hchars]
  rw [List.splitOn, List.splitOnP_append_cons _ _ (by simp), List.map_append, List.filter_append]
  rfl

/-- A name that is looked up in a directory, and does not go up from there. -/
structure Relative (name : String) : Prop where
  relative : Path.isAbsolute ⟨name⟩ = false
  ahead : ".." ∉ namesOf name

instance (name : String) : Decidable (Relative name) :=
  decidable_of_iff (Path.isAbsolute ⟨name⟩ = false ∧ ".." ∉ namesOf name)
    ⟨fun h => ⟨h.1, h.2⟩, fun h => ⟨h.1, h.2⟩⟩

/-- A path in a directory is written behind a text with the names of the directory. -/
theorem join_eq {root : Location} (hroot : ∀ n ∈ root, IsName n) {name : String}
    (hname : Path.isAbsolute ⟨name⟩ = false) :
    ∃ front, (pathOf root).join ⟨name⟩ = ⟨front ++ "/" ++ name⟩ ∧ namesOf front = root ∧
      (front ++ "/").toList.head? = some '/' := by
  unfold join
  rw [if_neg (by simp [hname])]
  cases root with
  | nil => exact ⟨"", if_pos (.inr (by rw [toList_pathOf]; rfl)), rfl, by decide⟩
  | cons n ns =>
    have hslash := endsInSlash_pathOf hroot (List.cons_ne_nil n ns)
    have hempty : (pathOf (n :: ns)).text ≠ "" := fun e => by
      have hchars := toList_pathOf (n :: ns)
      rw [e] at hchars
      cases hchars
    refine ⟨(pathOf (n :: ns)).text, if_neg ?_, namesOf_pathOf hroot, ?_⟩
    · exact not_or.mpr ⟨hempty, of_decide_eq_false hslash⟩
    · rw [String.toList_append, toList_pathOf]
      rfl

theorem names_join {root : Location} (hroot : ∀ n ∈ root, IsName n) {name : String}
    (hname : Relative name) : ((pathOf root).join ⟨name⟩).Names (lexical root (namesOf name)) := by
  obtain ⟨front, hjoin, hfront, hhead⟩ := join_eq hroot hname.relative
  have hnames : namesOf ((pathOf root).join ⟨name⟩).text = root ++ namesOf name := by
    rw [hjoin, namesOf_append_slash, hfront]
  refine ⟨?_, ?_, ?_⟩
  · have hfull : (front ++ "/").toList ≠ [] := fun e => by rw [e] at hhead; cases hhead
    rw [hjoin, isAbsolute, String.toList_append, List.head?_append_of_ne_nil _ hfull, hhead]
    rfl
  · rw [hnames, List.mem_append, not_or]
    exact ⟨fun hup => (hroot _ hup).2.2.1 rfl, hname.ahead⟩
  · rw [hnames, lexical_append, lexical_names hroot, List.nil_append]

/-! ## Parts -/

/-- The parts of a path that names a place are the names of the place. -/
theorem Names.parts {p : Path} {m : Location} (h : p.Names m) : p.parts = .root :: m.map .name := by
  obtain ⟨ns, hns⟩ := segments_absolute h.absolute
  have hnames : namesOf p.text = ns.filter (· ≠ "") := by
    show p.segments.filter (· ≠ "") = _
    rw [hns, List.filter_cons_of_neg (by simp)]
  have hplace : m = ns.filter fun n => n ≠ "" ∧ n ≠ "." := by
    rw [← h.place, lexical_ahead h.ahead, hnames, List.filter_filter, List.nil_append]
    exact List.filter_congr fun n _ => by simpa using fun hne _ => hne
  have hsignificant : p.significant.map Prod.fst = m := by
    unfold significant
    rw [hns, List.zipIdx_cons, List.filter_cons_of_neg (by simp [counts]), hplace]
    have hcounts : (ns.zipIdx 1).filter (fun s => counts s.2 s.1) =
        (ns.zipIdx 1).filter ((fun n => decide (n ≠ "" ∧ n ≠ ".")) ∘ Prod.fst) := by
      refine List.filter_congr fun s hs => ?_
      have hindex : s.2 ≠ 0 := by
        have := List.le_snd_of_mem_zipIdx hs
        omega
      simp [counts, hindex]
    rw [hcounts, ← List.filter_map, List.zipIdx_map_fst]
  have hpart : ∀ n ∈ m, partOf n = .name n := by
    intro n hn
    rw [hplace] at hn
    obtain ⟨hmem, hn⟩ := List.mem_filter.mp hn
    have hup : n ≠ ".." := by
      rintro rfl
      refine h.ahead ?_
      rw [hnames]
      exact List.mem_filter.mpr ⟨hmem, by simp⟩
    have hn : n ≠ "" ∧ n ≠ "." := of_decide_eq_true hn
    rw [partOf, if_neg hn.2, if_neg hup]
  rw [Path.parts, if_pos h.absolute]
  congr 1
  rw [← List.map_congr_left hpart, ← hsignificant, List.map_map]
  rfl

/-- Paths that are the same name the same place. -/
theorem Names.unique {p q : Path} {m m' : Location} (h : p.Names m) (h' : q.Names m')
    (hsame : p.same q = true) : m = m' := by
  have hparts := of_decide_eq_true hsame
  rw [h.parts, h'.parts] at hparts
  exact List.map_injective_iff.mpr (fun _ _ e => Part.name.inj e) (List.cons.inj hparts).2

/-! ## Where such a path leads -/

namespace Names

variable {p : Path} {m : Location} (h : p.Names m)
include h

theorem startOf (d : Disk) : d.startOf p.text = [] := if_pos h.absolute

theorem not_mem_stepsOf : ".." ∉ stepsOf p.text := by
  rcases stepsOf_eq p.text with e | e <;> rw [e]
  · exact h.ahead
  · simpa using h.ahead

theorem ne_empty : p.text ≠ "" := by
  intro e
  have habs := h.absolute
  rw [isAbsolute, e] at habs
  cases habs

/-- A path that does not end in a dot names a place below the root. -/
theorem ne_nil {n : String} (hlast : (namesOf p.text).getLast? = some n) (hdot : n ≠ ".") :
    m ≠ [] := by
  have hmem := List.mem_of_getLast? hlast
  have hempty : n ≠ "" := by simpa using (List.mem_filter.mp hmem).2
  rw [← h.place, lexical_ahead h.ahead, List.nil_append]
  exact List.ne_nil_of_mem (List.mem_filter.mpr ⟨hmem, by simpa using ⟨hempty, hdot⟩⟩)

variable {d : Disk} {l : Location} {purpose : Purpose} (hclear : d.Clear m)
include hclear

theorem locate (hl : d.locate purpose p = .ok l) : l = m := by
  obtain ⟨-, hroute⟩ := locate_iff.mp hl
  rw [h.startOf] at hroute
  have hplace := lexical_stepsOf [] p.text
  rw [h.place] at hplace
  rw [hroute.of_ahead h.not_mem_stepsOf (hplace.symm ▸ hclear), hplace]

theorem locateEntry (hl : d.locateEntry p = .ok l) : l = m := by
  obtain ⟨-, hroute⟩ := locateEntry_iff.mp hl
  rw [h.startOf] at hroute
  rw [hroute.of_ahead h.ahead (h.place.symm ▸ hclear), h.place]

end Names

end Path

end Whittle
