import Whittle.Proofs.Disk.Canonical

/-!
# The parent of a path

A path is its parent, one more part, and dots that say nothing (`Extends`): whoever follows the path
follows its parent first.
-/

namespace Whittle

open Text Disk

namespace Path

/-- What is no part, behind the first segment. -/
def Void (segment : String) : Prop := segment = "" ∨ segment = "."

theorem void_of_not_counts {index : Nat} {segment : String} (h : counts index segment ≠ true) :
    Void segment := by
  by_contra hvoid
  simp only [Void, not_or] at hvoid
  exact h (by simp [counts, hvoid.1, hvoid.2])

theorem not_void_or_first {index : Nat} {segment : String} (h : counts index segment = true) :
    segment ≠ "" ∧ (segment = "." → index = 0) := by
  simp only [counts, decide_eq_true_eq] at h
  exact ⟨h.1, fun e => h.2.resolve_left (fun hne => hne e)⟩

/-- Behind the last part there are no more parts. -/
theorem segments_of_last {p : Path} {s : String} {i : Nat}
    (h : p.significant.getLast? = some (s, i)) :
    s ≠ "" ∧ ∃ back, p.segments = p.segments.take i ++ s :: back ∧ ∀ n ∈ back, Void n := by
  obtain ⟨init, hinit⟩ := List.getLast?_eq_some_iff.mp h
  obtain ⟨before, last, hsplit, -, hlast⟩ := List.filter_eq_append_iff.mp hinit
  obtain ⟨gap, rest, rfl, -, hcounts, hrest⟩ := List.filter_eq_cons_iff.mp hlast
  rw [← List.append_assoc] at hsplit
  have hindex : (before ++ gap).length = i := by
    have hget := @List.getElem?_append_right _ (before ++ gap) ((s, i) :: rest) _
      (Nat.le_refl _)
    rw [← hsplit, Nat.sub_self, List.getElem?_cons_zero, List.getElem?_zipIdx] at hget
    cases hs : p.segments[(before ++ gap).length]? with
    | none => rw [hs] at hget; cases hget
    | some t =>
      rw [hs] at hget
      have := (Prod.mk.inj (Option.some.inj hget)).2
      omega
  have hsegments : p.segments = (before ++ gap).map Prod.fst ++ s :: rest.map Prod.fst := by
    have := congrArg (List.map Prod.fst) hsplit
    rwa [List.zipIdx_map_fst, List.map_append, List.map_cons] at this
  refine ⟨(not_void_or_first hcounts).1, rest.map Prod.fst, ?_, fun n hn => ?_⟩
  · conv_lhs => rw [hsegments]
    rw [hsegments, List.take_left' (by rw [List.length_map, hindex])]
  · obtain ⟨e, he, rfl⟩ := List.mem_map.mp hn
    exact void_of_not_counts (List.filter_eq_nil_iff.mp hrest e he)

/-- A text is cut behind its last part. -/
theorem textUpTo_eq (p : Path) (i : Nat) :
    ∃ front mid, p.segments.take i = front ++ mid ∧ (∀ n ∈ mid, Void n) ∧
      (∀ n, front.getLast? = some n → n ≠ "") ∧
      p.textUpTo i = ⟨if front = [] then if p.isAbsolute then "/" else ""
        else String.intercalate "/" front⟩ := by
  let skipped := (p.segments.take i).zipIdx.reverse.takeWhile fun s => !counts s.2 s.1
  let kept := (p.segments.take i).zipIdx.reverse.dropWhile fun s => !counts s.2 s.1
  have hsplit : (p.segments.take i).zipIdx = kept.reverse ++ skipped.reverse := by
    rw [← List.reverse_append, List.takeWhile_append_dropWhile, List.reverse_reverse]
  refine ⟨kept.reverse.map Prod.fst, skipped.reverse.map Prod.fst, ?_, fun n hn => ?_,
    fun n hn => ?_, ?_⟩
  · rw [← List.map_append, ← hsplit, List.zipIdx_map_fst]
  · obtain ⟨e, he, rfl⟩ := List.mem_map.mp hn
    have := List.all_eq_true.mp List.all_takeWhile e (List.mem_reverse.mp he)
    exact void_of_not_counts (by simpa using this)
  · rw [List.getLast?_map, List.getLast?_reverse] at hn
    cases hkept : kept.head? with
    | none => rw [hkept] at hn; cases hn
    | some e =>
      rw [hkept] at hn
      cases hn
      have := List.head?_dropWhile_not (fun s : String × Nat => !counts s.2 s.1)
        (p.segments.take i).zipIdx.reverse
      rw [show List.dropWhile _ _ = kept from rfl, hkept] at this
      exact (not_void_or_first (by simpa using this)).1
  · show (if kept.isEmpty then _ else _) = _
    by_cases h : kept = []
    · have hnone : kept.reverse.map Prod.fst = [] := by simpa using h
      rw [if_pos (List.isEmpty_iff.mpr h), if_pos hnone]
    · have hsome : kept.reverse.map Prod.fst ≠ [] := by simpa using h
      rw [if_neg (fun e => h (List.isEmpty_iff.mp e)), if_neg hsome]

/-- A path is its parent, one more part, and dots. -/
structure Extends (p parent : Path) (part : String) : Prop where
  names : ∃ mid back, namesOf p.text = namesOf parent.text ++ mid ++ part :: back ∧
    ∀ n ∈ mid ++ back, n = "."
  absolute : parent.isAbsolute = p.isAbsolute
  text : ∃ rest, p.text = parent.text ++ rest
  slash : endsInSlash parent.text = true → namesOf parent.text = []

theorem segments_intercalate {ns : List String} (h : ∀ n ∈ ns, Lacks '/' n) (hne : ns ≠ []) :
    (Path.mk (String.intercalate "/" ns)).segments = ns := by
  rw [segments, segmentChars, String.toList_intercalate, show "/".toList = ['/'] from by decide,
    List.splitOn_intercalate '/' _ (by simpa using hne), map_ofList_toList]
  intro cs hcs
  obtain ⟨n, hn, rfl⟩ := List.mem_map.mp hcs
  exact h n hn

/-- What is put together from segments ends with the last of them. -/
theorem intercalate_eq_append {front : List String} {n : String} (h : front.getLast? = some n) :
    ∃ before, String.intercalate "/" front = before ++ n := by
  obtain ⟨init, rfl⟩ := List.getLast?_eq_some_iff.mp h
  by_cases hinit : init = []
  · exact ⟨"", by rw [hinit]; rfl⟩
  · refine ⟨String.intercalate "/" init ++ "/", ?_⟩
    rw [String.intercalate_append_of_ne_nil hinit (List.cons_ne_nil n [])]
    rfl

section

variable {p : Path} {part : String}

/-- The first part has no parent but the place where the path starts. -/
theorem extends_start {mid back : List String} (hnames : namesOf p.text = mid ++ part :: back)
    (hdots : ∀ n ∈ mid ++ back, n = ".") : Extends p ⟨if p.isAbsolute then "/" else ""⟩ part := by
  cases habs : p.isAbsolute with
  | true =>
    have hhead : p.text.toList.head? = some '/' := of_decide_eq_true habs
    obtain ⟨cs, hcs⟩ := List.head?_eq_some_iff.mp hhead
    refine ⟨⟨mid, back, hnames, hdots⟩, habs.symm, ⟨String.ofList cs, String.toList_inj.mp ?_⟩,
      fun _ => rfl⟩
    rw [hcs, String.toList_append, String.toList_ofList]
    rfl
  | false => exact ⟨⟨mid, back, hnames, hdots⟩, habs.symm, ⟨p.text, by simp⟩, fun _ => rfl⟩

/-- Another part has the segments in front of it for its parent, and they end in no slash. -/
theorem extends_front {front rest mid back : List String} (hsegments : p.segments = front ++ rest)
    (hrest : rest ≠ []) {n : String} (hn : front.getLast? = some n) (hne : n ≠ "")
    (hnames : namesOf p.text = front.filter (· ≠ "") ++ mid ++ part :: back)
    (hdots : ∀ n ∈ mid ++ back, n = ".") :
    Extends p ⟨String.intercalate "/" front⟩ part := by
  have hempty : front ≠ [] := by
    rintro rfl
    cases hn
  have hlacks : ∀ n ∈ front, Lacks '/' n := fun n hn =>
    lacks_of_mem_segments (hsegments ▸ List.mem_append_left _ hn)
  obtain ⟨before, hbefore⟩ := intercalate_eq_append hn
  have hchars : n.toList ≠ [] := fun e => hne (String.toList_eq_nil_iff.mp e)
  have hfull : (before ++ n).toList ≠ [] := by
    rw [String.toList_append]
    exact List.append_ne_nil_of_right_ne_nil _ hchars
  have hwhole : p.text = String.intercalate "/" front ++ ("/" ++ String.intercalate "/" rest) := by
    rw [← intercalate_segments, hsegments, String.intercalate_append_of_ne_nil hempty hrest,
      String.append_assoc]
  refine ⟨⟨mid, back, ?_, hdots⟩, ?_, ⟨_, hwhole⟩, fun hslash => ?_⟩
  · rw [hnames]
    show _ = (Path.mk (String.intercalate "/" front)).segments.filter _ ++ _ ++ _
    rw [segments_intercalate hlacks hempty]
  · rw [isAbsolute, isAbsolute, hwhole, hbefore, @String.toList_append (before ++ n),
      List.head?_append_of_ne_nil _ hfull]
  · -- the last segment has no slash at its end
    have hend := of_decide_eq_true hslash
    rw [hbefore, String.toList_append, List.getLast?_append_of_ne_nil _ hchars] at hend
    exact absurd (List.mem_of_getLast? hend) (hlacks n (List.mem_of_getLast? hn))

end

theorem extends_of_parent {p q : Path} (h : p.parent = some q) :
    ∃ s i, p.significant.getLast? = some (s, i) ∧ s ≠ "" ∧ Extends p q s := by
  obtain ⟨⟨s, i⟩, hlast, rfl⟩ := Option.map_eq_some_iff.mp h
  obtain ⟨hne, back, hsegments, hback⟩ := segments_of_last hlast
  obtain ⟨front, mid, htake, hmid, hfront, htext⟩ := textUpTo_eq p i
  refine ⟨s, i, hlast, hne, ?_⟩
  rw [htake, List.append_assoc] at hsegments
  have hnames : namesOf p.text =
      front.filter (· ≠ "") ++ mid.filter (· ≠ "") ++ s :: back.filter (· ≠ "") := by
    show p.segments.filter (· ≠ "") = _
    rw [hsegments, List.filter_append, List.filter_append,
      List.filter_cons_of_pos (by simpa using hne), List.append_assoc]
  have hdots : ∀ n ∈ mid.filter (· ≠ "") ++ back.filter (· ≠ ""), n = "." := by
    intro n hn
    rw [← List.filter_append] at hn
    obtain ⟨hmem, hn⟩ := List.mem_filter.mp hn
    have hvoid : Void n := (List.mem_append.mp hmem).elim (hmid n) (hback n)
    exact hvoid.resolve_left (by simpa using hn)
  rw [htext]
  by_cases hempty : front = []
  · rw [if_pos hempty]
    rw [hempty, List.filter_nil, List.nil_append] at hnames
    exact extends_start hnames hdots
  · rw [if_neg hempty]
    obtain ⟨n, hn⟩ := Option.ne_none_iff_exists'.mp (mt List.getLast?_eq_none_iff.mp hempty)
    exact extends_front hsegments (by simp) hn (hfront n hn) hnames hdots

theorem names_parent {p q : Path} (h : p.parent = some q) : namesOf q.text <+: namesOf p.text := by
  obtain ⟨s, i, -, -, hextends⟩ := extends_of_parent h
  obtain ⟨mid, back, hnames, -⟩ := hextends.names
  rw [hnames, List.append_assoc]
  exact List.prefix_append _ _

theorem isAbsolute_parent {p q : Path} (hp : p.isAbsolute = true) (h : p.parent = some q) :
    q.isAbsolute = true := by
  obtain ⟨s, i, -, -, hextends⟩ := extends_of_parent h
  exact hextends.absolute.trans hp

end Path

end Whittle
