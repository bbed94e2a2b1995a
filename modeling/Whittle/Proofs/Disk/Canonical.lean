import Whittle.Proofs.Disk.Route

/-!
# Canonical paths

The canonical form of a path is written from the place that the path leads to (`canonical_ok`). If
there are no links, it is not longer than the path, so the system does not refuse it where it takes
the path itself (`stat_canonical`).
-/

namespace Whittle.Disk

open Text

/-! ## Lengths -/

/-- The bytes of names, each with a slash. -/
def weight : List String → Nat
  | [] => 0
  | n :: ns => n.utf8ByteSize + 1 + weight ns

theorem weight_nil : weight [] = 0 := rfl

theorem weight_cons (n : String) (ns : List String) :
    weight (n :: ns) = n.utf8ByteSize + 1 + weight ns := rfl

theorem weight_append (ms ns : List String) : weight (ms ++ ns) = weight ms + weight ns := by
  induction ms with
  | nil => simp [weight]
  | cons m ms ih =>
    rw [List.cons_append, weight_cons, weight_cons, ih]
    omega

theorem utf8ByteSize_intercalate (n : String) (ns : List String) :
    (String.intercalate "/" (n :: ns)).utf8ByteSize + 1 = weight (n :: ns) := by
  induction ns generalizing n with
  | nil => simp [weight]
  | cons m ms ih =>
    have hslash : "/".utf8ByteSize = 1 := by decide
    rw [String.intercalate_cons_cons, String.utf8ByteSize_append, String.utf8ByteSize_append,
      hslash, weight_cons, ← ih m]
    omega

theorem utf8ByteSize_pathOf (l : Location) : (pathOf l).text.utf8ByteSize ≤ max 1 (weight l) := by
  have hslash : "/".utf8ByteSize = 1 := by decide
  cases l with
  | nil => exact Nat.le_max_left _ _
  | cons n ns =>
    rw [pathOf, String.utf8ByteSize_append, hslash, ← utf8ByteSize_intercalate n ns]
    omega

theorem weight_lexical_le (here : Location) (names : List String) :
    weight (lexical here names) ≤ weight here + weight names := by
  induction names generalizing here with
  | nil => exact Nat.le_refl _
  | cons n ns ih =>
    rw [lexical, weight_cons]
    split
    · have := ih here
      omega
    · split
      · have hdrop : weight here.dropLast ≤ weight here := by
          rcases List.eq_nil_or_concat here with rfl | ⟨ms, m, rfl⟩
          · exact Nat.le_refl _
          · rw [List.concat_eq_append, List.dropLast_concat, weight_append]
            omega
        have := ih here.dropLast
        omega
      · have := ih (here ++ [n])
        rw [weight_append, weight_cons, weight_nil] at this
        omega

theorem weight_filter_le (f : String → Bool) (ns : List String) :
    weight (ns.filter f) ≤ weight ns := by
  induction ns with
  | nil => exact Nat.le_refl _
  | cons n ns ih =>
    rw [weight_cons]
    by_cases h : f n
    · rw [List.filter_cons_of_pos h, weight_cons]
      omega
    · rw [List.filter_cons_of_neg h]
      omega

theorem intercalate_segments (p : Path) : String.intercalate "/" p.segments = p.text := by
  refine String.toList_inj.mp ?_
  have hchars : p.segments.map String.toList = p.text.toList.splitOn '/' := by
    simp [Path.segments, Path.segmentChars, Function.comp_def]
  rw [String.toList_intercalate, hchars]
  exact List.intercalate_splitOn '/'

theorem segments_absolute {p : Path} (hp : p.isAbsolute = true) : ∃ ns, p.segments = "" :: ns := by
  have hp : p.text.toList.head? = some '/' := of_decide_eq_true hp
  obtain ⟨cs, hcs⟩ := List.head?_eq_some_iff.mp hp
  refine ⟨(cs.splitOn '/').map String.ofList, ?_⟩
  rw [Path.segments, Path.segmentChars, hcs, List.splitOn_cons_eq_if_modifyHead,
    if_pos (by simp), List.map_cons]

theorem weight_namesOf_le {p : Path} (hp : p.isAbsolute = true) :
    weight (namesOf p.text) ≤ p.text.utf8ByteSize := by
  obtain ⟨ns, hns⟩ := segments_absolute hp
  have hsize : p.text.utf8ByteSize + 1 = weight ("" :: ns) := by
    rw [← utf8ByteSize_intercalate, ← hns, intercalate_segments]
  have hnames : namesOf p.text = ns.filter (· ≠ "") := by
    show p.segments.filter (· ≠ "") = _
    rw [hns, List.filter_cons_of_neg (by simp)]
  have hempty : "".utf8ByteSize = 0 := by decide
  have := weight_filter_le (· ≠ "") ns
  rw [hnames]
  rw [weight_cons, hempty] at hsize
  omega

/-! ## Characters -/

theorem subset_intercalate {sep l : List Char} {ls : List (List Char)} (h : l ∈ ls) :
    l ⊆ sep.intercalate ls := by
  induction ls with
  | nil => cases h
  | cons k ks ih =>
    cases ks with
    | nil =>
      rw [List.mem_singleton.mp h, List.intercalate_singleton]
      exact fun _ hc => hc
    | cons j js =>
      rw [List.intercalate_cons_cons]
      rcases List.mem_cons.mp h with rfl | h
      · exact fun _ hc => List.mem_append_left _ (List.mem_append_left _ hc)
      · exact fun _ hc => List.mem_append_right _ (ih h hc)

theorem lacks_of_mem_namesOf {c : Char} {text n : String} (h : Lacks c text)
    (hn : n ∈ namesOf text) : Lacks c n := by
  intro hc
  have hn : n ∈ (Path.mk text).segments := (List.mem_filter.mp hn).1
  have htext : text.toList = ['/'].intercalate ((Path.mk text).segments.map String.toList) := by
    rw [← show "/".toList = ['/'] from by decide, ← String.toList_intercalate,
      intercalate_segments]
  exact h (htext ▸ subset_intercalate (List.mem_map_of_mem hn) hc)

theorem mem_lexical {n : String} {here : Location} {names : List String}
    (h : n ∈ lexical here names) : n ∈ here ∨ n ∈ names := by
  induction names generalizing here with
  | nil => exact .inl h
  | cons m ms ih =>
    rw [lexical] at h
    split at h
    · exact (ih h).imp_right (List.mem_cons_of_mem _)
    · split at h
      · exact (ih h).imp List.mem_of_mem_dropLast (List.mem_cons_of_mem _)
      · rcases ih h with h | h
        · rcases List.mem_append.mp h with h | h
          · exact .inl h
          · exact .inr (by rw [List.mem_singleton.mp h]; exact List.mem_cons_self)
        · exact .inr (List.mem_cons_of_mem _ h)

/-! ## The canonical path -/

theorem checkText_eq_ok {text : String} :
    checkText text = .ok () ↔ Lacks '\x00' text ∧ text ≠ "" ∧ text.utf8ByteSize < pathLimit := by
  unfold checkText Lacks
  split
  · simp_all
  · split
    · simp_all
    · split
      · simp_all
      · simp_all

theorem lacks_of_lacks_intercalate {c : Char} {sep : String} {ls : List String}
    (h : Lacks c (String.intercalate sep ls)) : ∀ l ∈ ls, Lacks c l := by
  induction ls with
  | nil => exact nofun
  | cons l ls ih =>
    cases ls with
    | nil =>
      rw [String.intercalate_singleton] at h
      exact fun k hk => List.mem_singleton.mp hk ▸ h
    | cons k ks =>
      rw [String.intercalate_cons_cons, lacks_append, lacks_append] at h
      intro x hx
      rcases List.mem_cons.mp hx with rfl | hx
      · exact h.1.1
      · exact ih h.2 x hx

/-- Beside a name that is not too long, no shorter one is. -/
theorem checkText_beside {l m k : Location} (h : checkText (pathOf (l ++ m)).text = .ok ())
    (hm : m ≠ []) (hk : ∀ n ∈ k, Lacks '\x00' n) (hsize : weight k ≤ weight m) :
    checkText (pathOf (l ++ k)).text = .ok () := by
  obtain ⟨hnul, -, hlong⟩ := checkText_eq_ok.mp h
  have hslash : "/".utf8ByteSize = 1 := by decide
  have hlimit : 1 < pathLimit := by decide
  have hbytes : weight (l ++ m) < pathLimit := by
    obtain ⟨n, ns, e⟩ := List.exists_cons_of_ne_nil (List.append_ne_nil_of_right_ne_nil l hm)
    rw [e] at hlong ⊢
    rw [pathOf, String.utf8ByteSize_append, hslash, ← Nat.add_comm, utf8ByteSize_intercalate]
      at hlong
    exact hlong
  refine checkText_eq_ok.mpr ⟨?_, ?_, ?_⟩
  · refine Lacks.append (by decide) (Lacks.intercalate (by decide) fun n hn => ?_)
    rcases List.mem_append.mp hn with hn | hn
    · exact lacks_of_lacks_intercalate (lacks_append.mp hnul).2 n (List.mem_append_left _ hn)
    · exact hk n hn
  · intro e
    have := toList_pathOf (l ++ k)
    rw [e] at this
    cases this
  · have hle := utf8ByteSize_pathOf (l ++ k)
    rw [weight_append] at hle hbytes
    omega

theorem checkText_pathOf_lexical {p : Path} (hp : p.isAbsolute = true)
    (h : checkText p.text = .ok ()) :
    checkText (pathOf (lexical [] (namesOf p.text))).text = .ok () := by
  obtain ⟨hnul, -, hlong⟩ := checkText_eq_ok.mp h
  refine checkText_eq_ok.mpr ⟨?_, ?_, ?_⟩
  · refine Lacks.append (by decide) (Lacks.intercalate (by decide) fun n hn => ?_)
    exact lacks_of_mem_namesOf hnul ((mem_lexical hn).resolve_left List.not_mem_nil)
  · intro e
    have := toList_pathOf (lexical [] (namesOf p.text))
    rw [e] at this
    cases this
  · have hsize := utf8ByteSize_pathOf (lexical [] (namesOf p.text))
    have hwalk := weight_lexical_le [] (namesOf p.text)
    have hnames := weight_namesOf_le hp
    have hroot : weight [] = 0 := rfl
    have hlimit : 1 < pathLimit := by decide
    omega

section

variable {d : Disk} {p q : Path}

/-- The canonical form of a path is written from the place that the path leads to. -/
theorem Starts.canonical (hstart : d.Starts p) (h : d.canonical p = .ok q) :
    ∃ l n, d.stat p = .ok (l, n) ∧ Reached d l ∧ q = pathOf l := by
  unfold Disk.canonical at h
  split at h
  · rename_i l n hstat
    cases h
    exact ⟨l, n, hstat, hstart.locate (stat_eq_ok hstat).1, rfl⟩
  · cases h

variable (hp : p.isAbsolute = true)
include hp

theorem canonical_ok (h : d.canonical p = .ok q) :
    ∃ l n, d.stat p = .ok (l, n) ∧ Reached d l ∧ q = pathOf l :=
  (starts_of_absolute hp).canonical h

/-- Without links the canonical form leads where the path did. -/
theorem stat_canonical (hd : d.Linkless) (h : d.canonical p = .ok q) : d.stat q = d.stat p := by
  obtain ⟨l, n, hstat, hreached, rfl⟩ := canonical_ok hp h
  obtain ⟨hlocate, hnode⟩ := stat_eq_ok hstat
  obtain ⟨hcheck, hroute⟩ := locate_iff.mp hlocate
  have hstart : d.startOf p.text = [] := if_pos hp
  rw [hstart] at hroute
  obtain rfl := (hroute.lexical hd).trans (lexical_stepsOf [] p.text)
  rw [hstat, stat_pathOf_iff (hd.clear _) hreached.isName]
  exact ⟨checkText_pathOf_lexical hp hcheck, hreached, rfl, hnode⟩

end

/-! ## Parts -/

theorem partOf_name {n : String} (h : IsName n) : Path.partOf n = .name n := by
  rw [Path.partOf, if_neg h.2.1, if_neg h.2.2.1]

theorem segments_pathOf {n : String} {ns : Location} (h : ∀ k ∈ n :: ns, IsName k) :
    (pathOf (n :: ns)).segments = "" :: n :: ns := by
  rw [Path.segments, Path.segmentChars, toList_pathOf, List.splitOn_cons_eq_if_modifyHead,
    if_pos (by simp), splitOn_intercalate_names h (List.cons_ne_nil n ns), List.map_cons,
    map_ofList_toList]

theorem significant_pathOf {l : Location} (h : ∀ n ∈ l, IsName n) :
    (pathOf l).significant = l.zipIdx 1 := by
  unfold Path.significant
  cases l with
  | nil => rfl
  | cons n ns =>
    rw [segments_pathOf h, List.zipIdx_cons, List.filter_cons_of_neg (by simp [Path.counts])]
    refine List.filter_eq_self.mpr fun e he => ?_
    obtain ⟨hempty, hdot, -, -⟩ := h e.1 (List.fst_mem_of_mem_zipIdx he)
    simp [Path.counts, hempty, hdot]

theorem fileName_pathOf {l : Location} {n : String} (h : ∀ k ∈ l ++ [n], IsName k) :
    (pathOf (l ++ [n])).fileName = some n := by
  have hlast : ((l ++ [n]).zipIdx 1).getLast? = some (n, 1 + l.length) := by
    rw [List.zipIdx_append, List.zipIdx_singleton, List.getLast?_concat]
  unfold Path.fileName
  rw [significant_pathOf h, hlast]
  simp only [partOf_name (h n (by simp))]

theorem parts_pathOf {l : Location} (h : ∀ n ∈ l, IsName n) :
    (pathOf l).parts = .root :: l.map .name := by
  have hnames : (l.zipIdx 1).map (fun e => Path.partOf e.1) = l.map .name := by
    show (l.zipIdx 1).map (Path.partOf ∘ Prod.fst) = _
    rw [← List.map_map, List.zipIdx_map_fst]
    exact List.map_congr_left fun n hn => partOf_name (h n hn)
  simp only [Path.parts, significant_pathOf h, hnames, isAbsolute_pathOf, if_true]

/-- A path in a directory starts with the path of the directory. -/
theorem startsWith_pathOf {l m : Location} (hl : ∀ n ∈ l, IsName n) (hm : ∀ n ∈ m, IsName n)
    (h : m <+: l) : (pathOf l).startsWith (pathOf m) = true := by
  rw [Path.startsWith, parts_pathOf hl, parts_pathOf hm, List.isPrefixOf_iff_prefix]
  exact List.cons_prefix_cons.mpr ⟨rfl, h.map _⟩

end Whittle.Disk
