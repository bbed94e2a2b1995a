import Whittle.Proofs.Disk.Nested
import Whittle.Settings.Check

/-!
# The check of the output

The check compares what is left of two paths when everything that is there has been resolved
(`settle`). If what is left does not go up, and no link is on it, then it leads to the same place as
the path (`Settles.placeOf`). So an output that passes the check leads out of the work directory.
-/

namespace Whittle

open Text Disk

namespace Path

/-- The parts of an absolute path are its names without the dots. -/
theorem significant_absolute {p : Path} (hp : p.isAbsolute = true) :
    p.significant.map Prod.fst = (namesOf p.text).filter (· ≠ ".") ∧
      ∀ s ∈ p.significant, s.2 ≠ 0 := by
  obtain ⟨ns, hns⟩ := segments_absolute hp
  have hsignificant : p.significant = (ns.zipIdx 1).filter fun s => counts s.2 s.1 := by
    rw [significant, hns, List.zipIdx_cons, List.filter_cons_of_neg (by simp [counts])]
  have hindex : ∀ s ∈ ns.zipIdx 1, s.2 ≠ 0 := by
    intro s hs
    have := (List.mem_zipIdx hs).1
    omega
  have hcounts : (ns.zipIdx 1).filter (fun s => counts s.2 s.1) =
      (ns.zipIdx 1).filter ((fun n => decide (n ≠ ".") && decide (n ≠ "")) ∘ Prod.fst) := by
    refine List.filter_congr fun s hs => ?_
    have := hindex s hs
    simp [counts, this, Bool.and_comm]
  have hnames : namesOf p.text = ns.filter (· ≠ "") := by
    show p.segments.filter (· ≠ "") = _
    rw [hns, List.filter_cons_of_neg (by simp)]
  constructor
  · rw [hsignificant, hcounts, ← List.filter_map, List.zipIdx_map_fst, hnames, List.filter_filter]
  · intro s hs
    rw [hsignificant] at hs
    exact hindex s (List.mem_filter.mp hs).1

theorem lexical_of_dots {names : List String} (h : ∀ n ∈ names, n = ".") (here : Location) :
    lexical here names = here := by
  induction names with
  | nil => rfl
  | cons n ns ih =>
    rw [lexical, if_pos (.inr (h n List.mem_cons_self))]
    exact ih fun m hm => h m (List.mem_cons_of_mem _ hm)

theorem lexical_of_no_up {names : List String} (hempty : "" ∉ names) (hup : ".." ∉ names)
    (here : Location) : lexical here names = here ++ names.filter (· ≠ ".") := by
  induction names generalizing here with
  | nil => simp [lexical]
  | cons n ns ih =>
    simp only [List.mem_cons, not_or] at hempty hup
    rw [lexical]
    by_cases hdot : n = "."
    · rw [if_pos (.inr hdot), ih hempty.2 hup.2, List.filter_cons_of_neg (by simp [hdot])]
    · rw [if_neg (by rintro (e | e); exacts [hempty.1 e.symm, hdot e]), if_neg (Ne.symm hup.1),
        ih hempty.2 hup.2, List.filter_cons_of_pos (by simp [hdot]), List.append_assoc,
        List.singleton_append]

theorem empty_not_mem_namesOf (text : String) : "" ∉ namesOf text := fun h => by
  simpa using (List.mem_filter.mp h).2

section

variable {p : Path} (hp : p.isAbsolute = true)
include hp

theorem parts_eq_map : p.parts = .root :: ((namesOf p.text).filter (· ≠ ".")).map partOf := by
  rw [← (significant_absolute hp).1]
  simp only [parts, hp, if_true, List.map_map, Function.comp_def]

/-- The parts of a path that does not go up are those of the place it is settled at, if no link is on
the way. -/
theorem parts_of_no_up (hup : .up ∉ p.parts) :
    p.parts = .root :: (lexical [] (namesOf p.text)).map .name ∧
      ∀ d : Disk, d.Clear (lexical [] (namesOf p.text)) →
        Settled d (namesOf p.text) (lexical [] (namesOf p.text)) := by
  have hmem {n : String} (hn : n ∈ (namesOf p.text).filter (· ≠ ".")) : partOf n ∈ p.parts := by
    rw [parts_eq_map hp]
    exact List.mem_cons_of_mem _ (List.mem_map_of_mem hn)
  have hnames : ".." ∉ namesOf p.text := fun h =>
    hup (hmem (List.mem_filter.mpr ⟨h, by decide⟩))
  refine ⟨?_, fun d hclear => .intro rfl .here hnames rfl hclear⟩
  rw [lexical_of_no_up (empty_not_mem_namesOf _) hnames, List.nil_append, parts_eq_map hp]
  refine congrArg _ (List.map_congr_left fun n hn => partOf_name ?_)
  obtain ⟨hn, hdot⟩ := List.mem_filter.mp hn
  exact ⟨fun e => empty_not_mem_namesOf _ (e ▸ hn), by simpa using hdot, fun e => hnames (e ▸ hn),
    lacks_of_mem_segments (List.mem_filter.mp hn).1⟩

/-- The names of a path are those of its parent, the last one, and dots. -/
theorem names_of_parent {q : Path} (h : p.parent = some q) {n : String}
    (hn : p.fileName = some n) : q.isAbsolute = true ∧ IsName n ∧
      ∃ more, namesOf p.text = namesOf q.text ++ more ∧ ".." ∉ more ∧
        ∀ m, lexical m more = m ++ [n] := by
  obtain ⟨s, i, hlast, hempty, hextends⟩ := extends_of_parent h
  obtain ⟨mid, back, hnames, hdots⟩ := hextends.names
  have hpart : s = n ∧ s ≠ "." ∧ s ≠ ".." := by
    simp only [fileName, hlast, partOf] at hn
    split_ifs at hn with hdot hup
    cases hn
    exact ⟨rfl, hdot, hup⟩
  obtain ⟨rfl, hdot, hup⟩ := hpart
  have hsegment : s ∈ p.segments := by
    have hmem : s ∈ namesOf p.text := by rw [hnames]; simp
    exact (List.mem_filter.mp hmem).1
  refine ⟨hextends.absolute.trans hp, ⟨hempty, hdot, hup, lacks_of_mem_segments hsegment⟩,
    mid ++ s :: back, by rw [hnames, List.append_assoc], fun hmem => ?_, fun m => ?_⟩
  · rcases List.mem_append.mp hmem with hmem | hmem
    · exact absurd (hdots _ (List.mem_append_left _ hmem)) (by decide)
    · rcases List.mem_cons.mp hmem with e | hmem
      · exact hup e.symm
      · exact absurd (hdots _ (List.mem_append_right _ hmem)) (by decide)
  · rw [lexical_append, lexical_of_dots fun n hn => hdots n (List.mem_append_left _ hn), lexical,
      if_neg (by rintro (e | e); exacts [hempty e, hdot e]), if_neg hup,
      lexical_of_dots fun n hn => hdots n (List.mem_append_right _ hn)]

end

end Path

/-! ## Resolving what is there -/

namespace Settings

theorem foldl_join {l : Location} (hl : ∀ n ∈ l, IsName n) {missing : List String}
    (hmissing : ∀ n ∈ missing, IsName n) :
    missing.foldl (fun acc name => acc.join ⟨name⟩) (pathOf l) = pathOf (l ++ missing) := by
  induction missing generalizing l with
  | nil => rw [List.foldl_nil, List.append_nil]
  | cons n ns ih =>
    have hn := hmissing n List.mem_cons_self
    have hjoin : (pathOf l).join ⟨n⟩ = pathOf (l ++ [n]) := @join_pathOf l hl n [] hn
    rw [List.foldl_cons, hjoin, ih (List.forall_mem_append.mpr ⟨hl, by simpa using hn⟩)
      fun m hm => hmissing m (List.mem_cons_of_mem _ hm), List.append_assoc, List.singleton_append]

/-- What is there is resolved, or the path is given back as it is. -/
theorem settleFrom_cases {d : Disk} {whole : Path} (fuel : Nat) {current : Path}
    (hcurrent : current.isAbsolute = true) {missing : List String}
    (hmissing : ∀ n ∈ missing, IsName n) {more : List String}
    (hnames : namesOf whole.text = namesOf current.text ++ more) (hup : ".." ∉ more)
    (hmore : ∀ m, lexical m more = m ++ missing) :
    (∃ l, (settleFrom d whole missing current fuel).parts = .root :: l.map .name ∧
        (d.Clear l → Settled d (namesOf whole.text) l)) ∨
      settleFrom d whole missing current fuel = whole := by
  induction fuel generalizing current missing more with
  | zero => exact .inr rfl
  | succ fuel ih =>
    unfold settleFrom
    split
    · rename_i p hcanonical
      obtain ⟨l, n, hstat, hreached, rfl⟩ := canonical_ok hcurrent hcanonical
      have hparts := parts_pathOf (List.forall_mem_append.mpr ⟨hreached.isName, hmissing⟩)
      rw [foldl_join hreached.isName hmissing]
      have hroute := route_of_locate (stat_eq_ok hstat).1
      have hstart : d.startOf current.text = [] := if_pos hcurrent
      rw [hstart] at hroute
      exact .inl ⟨l ++ missing, hparts, .intro hnames hroute hup (hmore l)⟩
    · split
      · rename_i parent name hparent hname
        obtain ⟨habsolute, hisName, back, hback, hbackUp, hlast⟩ :=
          Path.names_of_parent hcurrent hparent hname
        refine @ih parent habsolute (name :: missing) (fun m hm => ?_) (back ++ more) ?_
          (fun hmem => ?_) fun m => ?_
        · rcases List.mem_cons.mp hm with rfl | hm
          · exact hisName
          · exact hmissing m hm
        · rw [hnames, hback, List.append_assoc]
        · exact (List.mem_append.mp hmem).elim hbackUp hup
        · rw [lexical_append, hlast, hmore, List.append_assoc, List.singleton_append]
      · exact .inr rfl

/-- A path that does not go up any more when everything that is there has been resolved, and on
which no link is left. -/
def Settles (d : Disk) (p : Path) : Prop :=
  ∃ l, (settle d p).parts = .root :: l.map .name ∧ d.Clear l

/-- What a path leads to on a disk without links is what it settles to. -/
theorem settles_of_stat {d : Disk} (hd : d.Linkless) {p : Path} (hp : p.isAbsolute = true)
    {l : Location} {n : Node} (h : d.stat p = .ok (l, n)) : Settles d p := by
  have hcanonical : d.canonical p = .ok (pathOf l) := by rw [Disk.canonical, h]
  obtain ⟨l', -, -, hreached, hpath⟩ := canonical_ok hp hcanonical
  refine ⟨l', ?_, fun _ target _ => hd _ target⟩
  have hsettle : settle d p = pathOf l' := by
    unfold settle settleFrom
    rw [hcanonical, hpath]
    rfl
  rw [hsettle]
  exact parts_pathOf hreached.isName

section

variable {d : Disk} {p : Path} (hp : p.isAbsolute = true) (h : Settles d p)
include hp h

theorem Settles.settled :
    ∃ l, (settle d p).parts = .root :: l.map .name ∧ Settled d (namesOf p.text) l := by
  obtain ⟨l, hl, hclear⟩ := h
  refine ⟨l, hl, ?_⟩
  have hinj {l' : Location} (hl' : (settle d p).parts = .root :: l'.map .name) : l' = l :=
    List.map_injective_iff.mpr (fun _ _ e => Path.Part.name.inj e)
      (List.cons.inj (hl'.symm.trans hl)).2
  rcases @settleFrom_cases d p (p.parts.length + 1) p hp [] (fun _ h => nomatch h) []
    (List.append_nil _).symm (by simp) (fun m => (List.append_nil m).symm) with
    ⟨l', hl', hsettled⟩ | hwhole
  · obtain rfl := hinj hl'
    exact hsettled hclear
  · have hsettle : settle d p = p := hwhole
    have hup : .up ∉ p.parts := by
      rw [← hsettle, hl]
      simp
    obtain ⟨hparts, hsettled⟩ := Path.parts_of_no_up hp hup
    rw [hsettle] at hinj
    obtain rfl := hinj hparts
    exact hsettled d hclear

theorem Settles.placeOf :
    ∃ l, (settle d p).parts = .root :: l.map .name ∧ d.placeOf p = some l := by
  obtain ⟨l, hl, hsettled⟩ := h.settled hp
  exact ⟨l, hl, hsettled.placeOf hp rfl⟩

end

theorem join_absolute {base p : Path} (hp : p.isAbsolute = true) : base.join p = p := if_pos hp

/-- An output that passes the check does not lead into the work directory, if both paths settle. -/
theorem not_prefix_of_outputProblems {s : Settings} {d : Disk} {base : Path}
    (hout : s.outputPath.isAbsolute = true) (houtSettles : Settles d s.outputPath)
    (hdir : s.workDir.isAbsolute = true) (hdirSettles : Settles d s.workDir)
    (h : s.outputProblems d base = []) :
    ∃ root goal, d.placeOf s.workDir = some root ∧ d.placeOf s.outputPath = some goal ∧
      ¬ root <+: goal := by
  obtain ⟨goal, hgoal, hgoalPlace⟩ := houtSettles.placeOf hout
  obtain ⟨root, hroot, hrootPlace⟩ := hdirSettles.placeOf hdir
  refine ⟨root, goal, hrootPlace, hgoalPlace, fun hprefix => ?_⟩
  have hstarts : (settle d (base.join s.outputPath)).startsWith (settle d (base.join s.workDir)) =
      true := by
    rw [Path.startsWith, join_absolute hout, join_absolute hdir, hgoal, hroot,
      List.isPrefixOf_iff_prefix]
    exact List.cons_prefix_cons.mpr ⟨rfl, hprefix.map _⟩
  unfold outputProblems at h
  dsimp only at h
  rw [if_pos hstarts] at h
  cases h

end Settings

end Whittle
