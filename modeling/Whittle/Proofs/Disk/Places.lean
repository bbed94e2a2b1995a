import Mathlib.Data.List.Basic
import Whittle.Disk.Walk
import Whittle.Proofs.Text.Lacking

/-!
# Paths and locations

`pathOf` writes a location so that its names can be read back (`stepsOf_pathOf`), and a path in a
directory is written like the location in it (`join_pathOf`). `lexical` says where names lead if
none of them is a link; what a path leads to in this way is not longer than the path.
-/

namespace Whittle.Disk

open Text

/-- A name that an entry of a directory can have. -/
def IsName (n : String) : Prop := n ≠ "" ∧ n ≠ "." ∧ n ≠ ".." ∧ Lacks '/' n

instance (n : String) : Decidable (IsName n) :=
  inferInstanceAs (Decidable (_ ∧ _ ∧ _ ∧ _))

namespace IsName

variable {n : String}

theorem lacks (h : IsName n) : Lacks '/' n := h.2.2.2

theorem toList_ne_nil (h : IsName n) : n.toList ≠ [] := by
  intro e
  exact h.1 (String.toList_inj.mp e)

end IsName

/-- A name that is longer than two dots stays a name with more text behind it. -/
def IsFront (n : String) : Prop := IsName n ∧ 2 < n.length

instance (n : String) : Decidable (IsFront n) := inferInstanceAs (Decidable (_ ∧ _))

theorem IsFront.isName {n : String} (h : IsFront n) : IsName n := h.1

theorem IsFront.append {a b : String} (ha : IsFront a) (hb : Lacks '/' b) : IsFront (a ++ b) := by
  obtain ⟨hname, hlong⟩ := ha
  have hlen : 2 < (a ++ b).length := by rw [String.length_append]; omega
  refine ⟨⟨?_, ?_, ?_, hname.lacks.append hb⟩, hlen⟩
  · intro e; rw [e] at hlen; exact absurd hlen (by decide)
  · intro e; rw [e] at hlen; exact absurd hlen (by decide)
  · intro e; rw [e] at hlen; exact absurd hlen (by decide)

/-- Two texts that differ before either of them ends. -/
def Diverge (a b : String) : Prop := ¬ a.toList <+: b.toList ∧ ¬ b.toList <+: a.toList

instance (a b : String) : Decidable (Diverge a b) := inferInstanceAs (Decidable (_ ∧ _))

theorem Diverge.append_ne {a b : String} (h : Diverge a b) (x y : String) : a ++ x ≠ b ++ y := by
  intro e
  have ha : a.toList <+: (a ++ x).toList := by
    rw [String.toList_append]
    exact List.prefix_append _ _
  have hb : b.toList <+: (a ++ x).toList := by
    rw [e, String.toList_append]
    exact List.prefix_append _ _
  exact (List.prefix_or_prefix_of_prefix ha hb).elim h.1 h.2

/-! ## Names of a path -/

theorem not_mem_of_mem_splitOn {c : Char} {cs l : List Char} (h : l ∈ cs.splitOn c) : c ∉ l := by
  induction cs generalizing l with
  | nil =>
    rw [List.splitOn_nil, List.mem_singleton] at h
    rw [h]
    exact List.not_mem_nil
  | cons d ds ih =>
    rw [List.splitOn_cons_eq_if_modifyHead] at h
    split at h
    · rcases List.mem_cons.mp h with rfl | h
      · exact List.not_mem_nil
      · exact ih h
    · rename_i hd
      cases hs : ds.splitOn c with
      | nil => exact absurd hs (List.splitOn_ne_nil c ds)
      | cons k ks =>
        rw [hs, List.modifyHead_cons] at h
        rcases List.mem_cons.mp h with rfl | h
        · intro hm
          rcases List.mem_cons.mp hm with e | hm
          · exact hd (by simp [e])
          · exact ih (hs ▸ List.mem_cons_self) hm
        · exact ih (hs ▸ List.mem_cons_of_mem _ h)

theorem lacks_of_mem_segments {p : Path} {n : String} (h : n ∈ p.segments) : Lacks '/' n := by
  obtain ⟨cs, hcs, rfl⟩ := List.mem_map.mp h
  rw [Lacks, String.toList_ofList]
  exact not_mem_of_mem_splitOn hcs

theorem isName_of_fileName {p : Path} {n : String} (h : p.fileName = some n) : IsName n := by
  unfold Path.fileName at h
  split at h
  · rename_i s hs
    split at h
    · rename_i m hm
      cases h
      obtain ⟨hmem, hcounts⟩ := List.mem_filter.mp (List.mem_of_getLast? hs)
      have hsegment : s.1 ∈ p.segments := (List.mem_zipIdx' hmem).2 ▸ List.getElem_mem _
      unfold Path.partOf at hm
      split at hm
      · cases hm
      · rename_i hdot
        split at hm
        · cases hm
        · rename_i hup
          cases hm
          have hempty : s.1 ≠ "" := by
            simp only [Path.counts, decide_eq_true_eq] at hcounts
            exact hcounts.1
          exact ⟨hempty, hdot, hup, lacks_of_mem_segments hsegment⟩
    · cases h
  · cases h

/-! ## Names that are written and read back -/

theorem toList_pathOf (l : Location) :
    (pathOf l).text.toList = '/' :: ['/'].intercalate (l.map String.toList) := by
  simp [pathOf, String.toList_append, String.toList_intercalate]

theorem isAbsolute_pathOf (l : Location) : (pathOf l).isAbsolute = true := by
  simp [Path.isAbsolute, toList_pathOf]

theorem map_ofList_toList (l : List String) : (l.map String.toList).map String.ofList = l := by
  induction l with
  | nil => rfl
  | cons n ns ih => simp only [List.map_cons, String.ofList_toList, ih]

theorem splitOn_intercalate_names {l : Location} (h : ∀ n ∈ l, IsName n) (hne : l ≠ []) :
    (['/'].intercalate (l.map String.toList)).splitOn '/' = l.map String.toList := by
  refine List.splitOn_intercalate '/' (fun cs hcs => ?_) (by simpa using hne)
  obtain ⟨n, hn, rfl⟩ := List.mem_map.mp hcs
  exact (h n hn).lacks

theorem filter_names {l : Location} (h : ∀ n ∈ l, IsName n) : l.filter (· ≠ "") = l :=
  List.filter_eq_self.mpr fun n hn => by simpa using (h n hn).1

theorem namesOf_pathOf {l : Location} (h : ∀ n ∈ l, IsName n) : namesOf (pathOf l).text = l := by
  rw [namesOf, Path.segments, Path.segmentChars]
  show ((((pathOf l).text.toList.splitOn '/').map String.ofList).filter (· ≠ "")) = l
  rw [toList_pathOf, List.splitOn_cons_eq_if_modifyHead, if_pos (by simp), List.map_cons]
  cases l with
  | nil => rfl
  | cons n ns =>
    rw [splitOn_intercalate_names h (List.cons_ne_nil n ns), map_ofList_toList,
      List.filter_cons_of_neg (by simp), filter_names h]

theorem getLast?_intercalate_names {l : Location} (h : ∀ n ∈ l, IsName n) :
    (['/'].intercalate (l.map String.toList)).getLast? ≠ some '/' := by
  induction l with
  | nil => simp
  | cons n ns ih =>
    have hns : ∀ m ∈ ns, IsName m := fun m hm => h m (List.mem_cons_of_mem _ hm)
    cases ns with
    | nil =>
      intro e
      have hm := List.mem_of_getLast? e
      rw [List.map_cons, List.map_nil, List.intercalate_singleton] at hm
      exact (h n List.mem_cons_self).lacks hm
    | cons m ms =>
      have hfull : ['/'].intercalate ((m :: ms).map String.toList) ≠ [] := by
        cases ms with
        | nil => simpa using (hns m List.mem_cons_self).1
        | cons k ks => simp [List.intercalate_cons_cons]
      rw [List.map_cons, List.map_cons, List.intercalate_cons_cons, ← List.map_cons,
        List.getLast?_append_of_ne_nil _ hfull]
      exact ih hns

theorem endsInSlash_pathOf {l : Location} (h : ∀ n ∈ l, IsName n) (hne : l ≠ []) :
    endsInSlash (pathOf l).text = false := by
  have hfull : ['/'].intercalate (l.map String.toList) ≠ [] := by
    intro e
    have := splitOn_intercalate_names h hne
    rw [e] at this
    cases l with
    | nil => exact hne rfl
    | cons n ns =>
      rw [List.splitOn_nil, List.map_cons] at this
      exact (h n List.mem_cons_self).toList_ne_nil (List.cons.inj this).1.symm
  rw [endsInSlash, toList_pathOf, ← List.singleton_append,
    List.getLast?_append_of_ne_nil _ hfull]
  exact decide_eq_false (getLast?_intercalate_names h)

theorem stepsOf_pathOf {l : Location} (h : ∀ n ∈ l, IsName n) : stepsOf (pathOf l).text = l := by
  simp only [stepsOf, namesOf_pathOf h]
  split
  · rename_i hs
    rw [endsInSlash_pathOf h hs.1] at hs
    exact absurd hs.2 (by simp)
  · rfl

/-! ## Paths in a directory -/

theorem isAbsolute_relative {n : String} {ns : List String} (h : IsName n) :
    Path.isAbsolute ⟨String.intercalate "/" (n :: ns)⟩ = false := by
  obtain ⟨c, cs, hc⟩ := List.exists_cons_of_ne_nil h.toList_ne_nil
  have hslash : c ≠ '/' := by
    rintro rfl
    exact h.lacks (hc ▸ List.mem_cons_self)
  have hhead : (String.intercalate "/" (n :: ns)).toList.head? = some c := by
    rw [String.toList_intercalate]
    cases ns with
    | nil => simp [hc]
    | cons m ms => simp [List.intercalate_cons_cons, hc]
  rw [Path.isAbsolute, hhead]
  simpa using hslash

theorem join_pathOf {l : Location} (h : ∀ n ∈ l, IsName n) {n : String} {ns : List String}
    (hn : IsName n) :
    (pathOf l).join ⟨String.intercalate "/" (n :: ns)⟩ = pathOf (l ++ n :: ns) := by
  have htext : (pathOf l).text ≠ "" := by
    intro e
    have := toList_pathOf l
    rw [e] at this
    cases this
  unfold Path.join
  rw [if_neg (by rw [isAbsolute_relative hn]; simp)]
  cases l with
  | nil =>
    rw [if_pos (.inr (by rw [toList_pathOf]; rfl))]
    rfl
  | cons m ms =>
    have hlast : ¬ (pathOf (m :: ms)).text.toList.getLast? = some '/' := by
      simpa [endsInSlash] using endsInSlash_pathOf h (List.cons_ne_nil m ms)
    rw [if_neg (by rintro (e | e); exacts [htext e, hlast e])]
    have hlist : ∀ (k : String) (ks : List String),
        ['/'].intercalate ((k :: ks ++ n :: ns).map String.toList) =
          ['/'].intercalate ((k :: ks).map String.toList) ++
            '/' :: ['/'].intercalate ((n :: ns).map String.toList) := by
      intro k ks
      induction ks generalizing k with
      | nil => simp [List.intercalate_cons_cons]
      | cons j js ih =>
        have := ih j
        rw [List.cons_append, List.map_cons] at this
        simp only [List.cons_append, List.map_cons, List.intercalate_cons_cons] at this ⊢
        rw [this]
        simp
    have hchars : ((pathOf (m :: ms)).text ++ "/" ++ String.intercalate "/" (n :: ns)).toList =
        (pathOf (m :: ms ++ n :: ns)).text.toList := by
      rw [toList_pathOf, hlist, String.toList_append, String.toList_append, toList_pathOf,
        String.toList_intercalate]
      simp
    exact congrArg Path.mk (String.toList_inj.mp hchars)

end Whittle.Disk
