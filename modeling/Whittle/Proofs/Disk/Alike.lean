import Whittle.Proofs.Disk.Nested
import Whittle.Proofs.Disk.Slots
import Whittle.Proofs.Action

/-!
# Disks that differ in regular files

Two disks are `Alike` if they have the same everywhere, but for files at places of a set `S`. At the
places of a second set, `F`, they have become the same, with everything below. A path that passes no
place of `S` leads to the same place on both (`Open`), and if the place is outside `S` or in `F`,
what is found there is the same (`Known`); operations on such paths then do the same on both. What is
removed, or copied to, is the same on both afterwards, whatever was there before.
-/

namespace Whittle.Disk

/-- What stands at a place is the same on two disks without links, but for the identity of a file. -/
inductive Like : Option Node → Option Node → Prop
  | none : Like none none
  | dir : Like (some .dir) (some .dir)
  | sink : Like (some .sink) (some .sink)
  | file (id id' : Nat) (content : ByteArray) (x : Bool) :
    Like (some (.file id content x)) (some (.file id' content x))

/-- The same was found on two disks. -/
inductive Found : Except Errno (Location × Node) → Except Errno (Location × Node) → Prop
  | error (e : Errno) : Found (.error e) (.error e)
  | dir (l : Location) : Found (.ok (l, .dir)) (.ok (l, .dir))
  | sink (l : Location) : Found (.ok (l, .sink)) (.ok (l, .sink))
  | file (l : Location) (id id' : Nat) (content : ByteArray) (x : Bool) :
    Found (.ok (l, .file id content x)) (.ok (l, .file id' content x))

structure Alike (S F : Set Location) (d d' : Disk) : Prop where
  nested : d.Nested
  nested' : d'.Nested
  apart : ∀ P, P ∉ S → Like (d.get? P) (d'.get? P)
  fresh : ∀ m ∈ F, ∀ P, m <+: P → Like (d.get? P) (d'.get? P)
  rest : ∀ P, Like (d.get? P) (d'.get? P) ∨ d.Free P ∧ d'.Free P

/-! ## Paths -/

/-- Where an absolute path leads on a disk without links. -/
def goal (p : Path) : Location := lexical [] (namesOf p.text)

/-- An absolute path that passes no place of a set before it ends. -/
structure Open (S : Set Location) (p : Path) : Prop where
  absolute : p.isAbsolute = true
  way : ∀ front, front <+: stepsOf p.text → front ≠ stepsOf p.text → lexical [] front ∉ S

/-- An open path to a place at which both disks have the same. -/
structure Known (S F : Set Location) (p : Path) : Prop extends Open S p where
  known : goal p ∈ S → goal p ∈ F

theorem Known.mono {S F F' : Set Location} {p : Path} (h : Known S F p) (hF : F ⊆ F') :
    Known S F' p :=
  ⟨h.toOpen, fun hS => hF (h.known hS)⟩

theorem goal_pathOf {m : Location} (hm : ∀ n ∈ m, IsName n) : goal (pathOf m) = m := by
  rw [goal, namesOf_pathOf hm, lexical_names hm, List.nil_append]

theorem open_pathOf {S : Set Location} {m : Location} (hm : ∀ n ∈ m, IsName n)
    (h : ∀ P, P <+: m → P ≠ m → P ∉ S) : Open S (pathOf m) where
  absolute := isAbsolute_pathOf m
  way front hfront hne := by
    rw [stepsOf_pathOf hm] at hfront hne
    rw [lexical_names fun n hn => hm n (hfront.subset hn), List.nil_append]
    exact h front hfront hne

theorem namesOf_prefix_stepsOf (text : String) : namesOf text <+: stepsOf text := by
  unfold stepsOf
  dsimp only
  split
  · exact List.prefix_append _ _
  · exact List.prefix_refl _

/-- An absolute path that passes no place of a set, nor ends at one. -/
structure Clean (S : Set Location) (p : Path) : Prop where
  absolute : p.isAbsolute = true
  way : ∀ front, front <+: namesOf p.text → lexical [] front ∉ S

/-- The steps of a path before the last one are names of the path. -/
theorem prefix_namesOf {text : String} {front : List String} (hfront : front <+: stepsOf text)
    (hne : front ≠ stepsOf text) : front <+: namesOf text := by
  unfold stepsOf at hfront hne
  dsimp only at hfront hne
  split at hfront
  · rename_i hslash
    rw [if_pos hslash] at hne
    exact (List.prefix_concat_iff.mp hfront).resolve_left hne
  · exact hfront

namespace Clean

variable {S : Set Location} {p : Path} (h : Clean S p)
include h

theorem opens : Open S p :=
  ⟨h.absolute, fun front hfront hne => h.way front (prefix_namesOf hfront hne)⟩

theorem knows (F : Set Location) : Known S F p :=
  ⟨h.opens, fun hS => absurd hS (h.way _ (List.prefix_refl _))⟩

theorem parent {q : Path} (hq : p.parent = some q) : Clean S q :=
  ⟨Path.isAbsolute_parent h.absolute hq,
    fun front hfront => h.way front (hfront.trans (Path.names_parent hq))⟩

end Clean

/-! ### Paths past directories -/

theorem aim_linkless {d : Disk} (hd : d.Linkless) (links : Nat) (here : Location)
    (names : List String) : d.aim links here names = some (lexical here names) := by
  induction names generalizing here with
  | nil => exact aim_nil
  | cons name rest ih =>
    unfold lexical
    split
    · rename_i hdot
      rw [aim_dot hdot, ih]
    · rename_i hdot
      split
      · rename_i hup
        rw [hup, aim_up, ih]
      · rename_i hup
        rw [aim_into hdot hup fun target => hd _ target, ih]

section

variable {S : Set Location} {d : Disk} (hnested : d.Nested) (hd : d.Linkless) {p : Path}
  (hp : p.isAbsolute = true) (hS : ∀ P ∈ S, d.get? P ≠ some .dir)
include hnested hd hp hS

/-- A path that leads somewhere passes directories only. -/
theorem open_of_locate {purpose : Purpose} {l : Location} (hl : d.locate purpose p = .ok l) :
    Open S p := by
  refine ⟨hp, fun front hfront hne hmem => ?_⟩
  obtain ⟨rest, hrest⟩ := hfront
  have hrest' : rest ≠ [] := by
    rintro rfl
    exact hne ((List.append_nil front).symm.trans hrest)
  have hroute := (locate_iff.mp hl).2
  have hstart : d.startOf p.text = [] := if_pos hp
  rw [hstart] at hroute
  obtain ⟨k, hk, hdir⟩ := hroute.front hnested (get?_nil d) hrest.symm hrest'
  rw [hk.lexical hd] at hdir
  exact hS _ hmem hdir

/-- So does one that can be settled, up to the place where it ends. -/
theorem clean_of_settled {l : Location} (h : Settled d (namesOf p.text) l)
    (hl : ∀ P ∈ S, ¬ P <+: l) : Clean S p := by
  refine ⟨hp, fun front hfront hmem => ?_⟩
  obtain ⟨rest, hrest⟩ := hfront
  rcases h.aim_front hnested hrest.symm (aim_linkless hd linkBudget [] front) with hway | hdir
  · exact hl _ hmem hway
  · exact hS _ hmem hdir

end

/-! ## Walks -/

/-- What stands at the end of a walk makes no difference, if it is no link. -/
theorem walkNames_single {d : Disk} (hd : d.Linkless) {purpose : Purpose}
    {follow : Location → List String → Except Errno Location} {here : Location} {name : String} :
    d.walkNames purpose follow here [name] =
      if name = "" ∨ name = "." then .ok here
      else if name = ".." then .ok here.dropLast
      else if name.utf8ByteSize > nameLimit then .error .nameTooLong
      else .ok (here ++ [name]) := by
  have hslash : ¬ (purpose = .file ∧ ([] : List String) = [""]) := by simp
  simp only [walkNames, if_neg hslash]
  cases hnode : d.get? (here ++ [name]) with
  | none => rfl
  | some n =>
    cases n with
    | link target => exact absurd hnode (hd _ target)
    | file | dir | sink => rfl

/-- A walk goes the same way on two disks without links that are the same on it. -/
theorem walkNames_like {d d' : Disk} (hd : d.Linkless) (hd' : d'.Linkless) {purpose : Purpose}
    {follow follow' : Location → List String → Except Errno Location} {names : List String}
    {here : Location}
    (h : ∀ front, front <+: names → front ≠ names →
      Like (d.get? (lexical here front)) (d'.get? (lexical here front))) :
    d.walkNames purpose follow here names = d'.walkNames purpose follow' here names := by
  induction names generalizing here with
  | nil => rfl
  | cons name rest ih =>
    by_cases hrest : rest = []
    · subst hrest
      rw [walkNames_single hd, walkNames_single hd']
    have hon {there : Location}
        (hthere : ∀ front, lexical here (name :: front) = lexical there front) :
        d.walkNames purpose follow there rest = d'.walkNames purpose follow' there rest := by
      refine ih fun front hfront hne => ?_
      rw [← hthere]
      exact h _ (List.cons_prefix_cons.mpr ⟨rfl, hfront⟩) (by simpa using hne)
    unfold walkNames
    by_cases hdot : name = "" ∨ name = "."
    · rw [if_pos hdot, if_pos hdot]
      exact hon fun front => by rw [lexical, if_pos hdot]
    by_cases hup : name = ".."
    · rw [if_neg hdot, if_neg hdot, if_pos hup, if_pos hup]
      exact hon fun front => by rw [lexical, if_neg hdot, if_pos hup]
    have hinto := @hon (here ++ [name]) fun front => by
      rw [lexical, if_neg hdot, if_neg hup]
    have hlike := h [name] (List.cons_prefix_cons.mpr ⟨rfl, List.nil_prefix⟩)
      (by simpa using Ne.symm hrest)
    rw [lexical, if_neg hdot, if_neg hup, lexical] at hlike
    rw [if_neg hdot, if_neg hdot, if_neg hup, if_neg hup, hinto]
    generalize d.get? (here ++ [name]) = n, d'.get? (here ++ [name]) = n' at hlike
    cases hlike <;> rfl

/-! ## What is found -/

/-- Nothing, or a file, is no directory and no link. -/
theorem Like.not_link {n n' : Option Node} (h : Like n n') (target : String) :
    n ≠ some (.link target) ∧ n' ≠ some (.link target) := by
  cases h <;> simp

namespace Alike

variable {S F F' : Set Location} {d d' : Disk} (h : Alike S F d d')
include h

theorem mono (hF : F' ⊆ F) : Alike S F' d d' :=
  ⟨h.nested, h.nested', h.apart, fun m hm => h.fresh m (hF hm), h.rest⟩

theorem linkless : d.Linkless ∧ d'.Linkless := by
  constructor
  · intro P target
    rcases h.rest P with hlike | ⟨hfree, -⟩
    · exact (hlike.not_link target).1
    · exact hfree.not_link target
  · intro P target
    rcases h.rest P with hlike | ⟨-, hfree⟩
    · exact (hlike.not_link target).2
    · exact hfree.not_link target

theorem like {P : Location} (hP : P ∈ S → P ∈ F) : Like (d.get? P) (d'.get? P) := by
  by_cases hS : P ∈ S
  · exact h.fresh P (hP hS) P (List.prefix_refl P)
  · exact h.apart P hS

section

variable {p : Path} (hp : Open S p)
include hp

theorem locate (purpose : Purpose) : d.locate purpose p = d'.locate purpose p := by
  have hstart (d : Disk) : d.startOf p.text = [] := if_pos hp.absolute
  have hwalk : d.walk purpose linkBudget [] (stepsOf p.text) =
      d'.walk purpose linkBudget [] (stepsOf p.text) := by
    rw [walk_eq, walk_eq]
    exact walkNames_like h.linkless.1 h.linkless.2 fun front hfront hne =>
      h.apart _ (hp.way front hfront hne)
  simp only [Disk.locate, hstart, hwalk]

theorem locateEntry : d.locateEntry p = d'.locateEntry p := by
  have hstart (d : Disk) : d.startOf p.text = [] := if_pos hp.absolute
  have hnames := namesOf_prefix_stepsOf p.text
  have hwalk : d.walk .entry linkBudget [] (namesOf p.text) =
      d'.walk .entry linkBudget [] (namesOf p.text) := by
    rw [walk_eq, walk_eq]
    refine walkNames_like h.linkless.1 h.linkless.2 fun front hfront hne =>
      h.apart _ (hp.way front (hfront.trans hnames) ?_)
    rintro rfl
    exact hne (hfront.eq_of_length_le hnames.length_le)
  simp only [Disk.locateEntry, hstart, hwalk]

omit h in
theorem goal_of_locate (hd : d.Linkless) {purpose : Purpose} {l : Location}
    (hl : d.locate purpose p = .ok l) : l = goal p := by
  have hstart : d.startOf p.text = [] := if_pos hp.absolute
  have hroute := (locate_iff.mp hl).2.lexical hd
  rwa [hstart, lexical_stepsOf] at hroute

omit h in
theorem goal_of_locateEntry (hd : d.Linkless) {l : Location} (hl : d.locateEntry p = .ok l) :
    l = goal p := by
  have hstart : d.startOf p.text = [] := if_pos hp.absolute
  have hroute := (locateEntry_iff.mp hl).2.lexical hd
  rwa [hstart] at hroute

end

section

variable {p : Path} (hp : Known S F p)
include hp

/-- The same is found by a known path. -/
theorem stat : Found (d.stat p) (d'.stat p) := by
  have hlocate := h.locate hp.toOpen .target
  cases hl : d.locate .target p with
  | error e =>
    rw [hl] at hlocate
    simp only [Disk.stat, hl, ← hlocate, bind, Except.bind]
    exact .error e
  | ok l =>
    rw [hl] at hlocate
    have hlike := h.like (P := l) (by
      rw [goal_of_locate hp.toOpen h.linkless.1 hl]
      exact hp.known)
    simp only [Disk.stat, hl, ← hlocate, bind, Except.bind]
    generalize d.get? l = n, d'.get? l = n' at hlike
    cases hlike with
    | none => exact .error _
    | dir => exact .dir l
    | sink => exact .sink l
    | file id id' content x => exact .file l id id' content x

theorem read : d.read p = d'.read p := by
  have hfound := h.stat hp
  unfold Disk.read
  generalize d.stat p = r, d'.stat p = r' at hfound
  cases hfound <;> rfl

theorem readText : d.readText p = d'.readText p := by
  unfold Disk.readText
  rw [h.read hp]

theorem size : d.size p = d'.size p := by
  have hfound := h.stat hp
  unfold Disk.size
  generalize d.stat p = r, d'.stat p = r' at hfound
  cases hfound <;> rfl

theorem isFile : d.isFile p = d'.isFile p := by
  have hfound := h.stat hp
  unfold Disk.isFile
  generalize d.stat p = r, d'.stat p = r' at hfound
  cases hfound <;> rfl

theorem isDir : d.isDir p = d'.isDir p := by
  have hfound := h.stat hp
  unfold Disk.isDir
  generalize d.stat p = r, d'.stat p = r' at hfound
  cases hfound <;> rfl

theorem pathExists : d.pathExists p = d'.pathExists p := by
  have hfound := h.stat hp
  unfold Disk.pathExists
  generalize d.stat p = r, d'.stat p = r' at hfound
  cases hfound <;> rfl

end

end Alike

end Whittle.Disk
