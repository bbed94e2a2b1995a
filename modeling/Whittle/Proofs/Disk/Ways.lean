import Whittle.Proofs.Disk.Frame

/-!
# Disks that keep their ways

A walk goes through directories and links and does not look at what is in a file. So on a disk that
has the directories of another one, and the same links, it ends where it ended there: making
directories, writing to a file and locking one do not lead a path astray, links or not. Where
directories are removed, a path that does not pass through them is kept (`Route.kept`).
-/

namespace Whittle.Disk

/-- The second disk has the directories of the first, and the same links. -/
structure Ways (d d' : Disk) : Prop where
  cwd : d'.cwd = d.cwd
  dir : ∀ l, d.get? l = some .dir → d'.get? l = some .dir
  link : SameLinks d d'

namespace Ways

variable {d d₁ d' : Disk}

theorem refl (d : Disk) : Ways d d := ⟨rfl, fun _ h => h, .refl d⟩

theorem trans (h : Ways d d₁) (h₁ : Ways d₁ d') : Ways d d' where
  cwd := h₁.cwd.trans h.cwd
  dir l hl := h₁.dir l (h.dir l hl)
  link := h.link.trans h₁.link

theorem of_get? (hcwd : d'.cwd = d.cwd) (h : ∀ l, d'.get? l = d.get? l) : Ways d d' where
  cwd := hcwd
  dir l hl := (h l).trans hl
  link l target := by rw [h l]

/-- Where no directory and no link stood there may stand anything but a link. -/
theorem of_change {l : Location} {n : Node} (hdir : d.get? l ≠ some .dir)
    (hlink : ∀ target, d.get? l ≠ some (.link target)) (hn : ∀ target, n ≠ .link target)
    (hcwd : d'.cwd = d.cwd) (hget : ∀ m, d'.get? m = if m = l then some n else d.get? m) :
    Ways d d' where
  cwd := hcwd
  dir m hm := by
    rw [hget, if_neg]
    · exact hm
    · rintro rfl
      exact hdir hm
  link m target := by
    rw [hget]
    split
    · rename_i e
      rw [e]
      simp [hn target, hlink target]
    · exact Iff.rfl

/-! ## Walks -/

theorem route (h : Ways d d') {purpose : Purpose} {links : Nat} {here l : Location}
    {names : List String} (hr : Route d purpose links here names l) :
    Route d' purpose links here names l := by
  induction hr with
  | here => exact .here
  | dot hdot _ ih => exact .dot hdot ih
  | up _ ih => exact .up ih
  | into hname hdir _ ih => exact .into hname (h.dir _ hdir) ih
  | @stop links here name hname hdir hlink =>
    -- where nothing stood, or what was written to, there may be a directory now
    by_cases hnew : d'.get? (here ++ [name]) = some .dir
    · exact .into hname hnew .here
    · exact .stop hname hnew fun target e => hlink target ((h.link _ _).mp e)
  | along hname hlink hfollow _ ih => exact .along hname ((h.link _ _).mpr hlink) hfollow ih

theorem walk (h : Ways d d') {purpose : Purpose} {links : Nat} {here l : Location}
    {names : List String} (hw : d.walk purpose links here names = .ok l) :
    d'.walk purpose links here names = .ok l :=
  (h.route (route_of_walk hw)).walk

theorem startOf (h : Ways d d') (text : String) : d'.startOf text = d.startOf text := by
  rw [Disk.startOf, Disk.startOf, h.cwd]

theorem locate (h : Ways d d') {purpose : Purpose} {p : Path} {l : Location}
    (hl : d.locate purpose p = .ok l) : d'.locate purpose p = .ok l := by
  unfold Disk.locate at hl ⊢
  cases hc : checkText p.text with
  | error e => rw [hc] at hl; cases hl
  | ok _ =>
    rw [hc] at hl
    rw [h.startOf]
    exact h.walk hl

theorem stat (h : Ways d d') {p : Path} {l : Location} {n n' : Node}
    (hs : d.stat p = .ok (l, n)) (hn : d'.get? l = some n') : d'.stat p = .ok (l, n') :=
  stat_of_locate (h.locate (stat_eq_ok hs).1) hn

end Ways

/-! ## Ways past what is removed -/

/-- The places that names lead to on their way, up to the first link; `follow` goes on from it. -/
def passNames (d : Disk) (follow : Location → List String → List Location) (here : Location) :
    List String → List Location
  | [] => []
  | name :: rest =>
    if name = "" ∨ name = "." then passNames d follow here rest
    else if name = ".." then passNames d follow here.dropLast rest
    else
      match d.get? (here ++ [name]) with
      | some (.link target) =>
        follow (if isAbsoluteText target then [] else here) (stepsOf target ++ rest)
      | _ => (here ++ [name]) :: passNames d follow (here ++ [name]) rest

/-- The places that names lead to on their way, by at most so many links. -/
def passes (d : Disk) : Nat → Location → List String → List Location
  | 0 => passNames d fun _ _ => []
  | links + 1 => passNames d (passes d links)

/-- The places that a path leads to on its way. -/
def placesOn (d : Disk) (p : Path) : List Location :=
  d.passes linkBudget (d.startOf p.text) (stepsOf p.text)

section

variable {d : Disk} {links : Nat} {here : Location} {name : String} {rest : List String}

theorem passes_dot (hdot : name = "" ∨ name = ".") :
    d.passes links here (name :: rest) = d.passes links here rest := by
  cases links <;> rw [passes, passNames, if_pos hdot]

theorem passes_up : d.passes links here (".." :: rest) = d.passes links here.dropLast rest := by
  cases links <;> rw [passes, passNames, if_neg (by decide), if_pos rfl]

theorem passes_into (hdot : ¬ (name = "" ∨ name = ".")) (hup : name ≠ "..")
    (hlink : ∀ target, d.get? (here ++ [name]) ≠ some (.link target)) :
    d.passes links here (name :: rest) =
      (here ++ [name]) :: d.passes links (here ++ [name]) rest := by
  cases links <;> rw [passes, passNames, if_neg hdot, if_neg hup] <;> split <;>
    first | rfl | exact absurd ‹_› (hlink _)

theorem passes_along {target : String} (hdot : ¬ (name = "" ∨ name = ".")) (hup : name ≠ "..")
    (hlink : d.get? (here ++ [name]) = some (.link target)) :
    d.passes (links + 1) here (name :: rest) =
      d.passes links (if isAbsoluteText target then [] else here) (stepsOf target ++ rest) := by
  rw [passes, passNames, if_neg hdot, if_neg hup, hlink]

end

section

variable {d₀ d d' : Disk} (hlinks₀ : SameLinks d₀ d) (hlinks : SameLinks d d')
include hlinks₀ hlinks

/-- A way is kept if the directories are that it leads through, and what stands at its end. -/
theorem Route.kept {links : Nat} {here l : Location} {names : List String}
    (h : Route d .target links here names l)
    (hdirs : ∀ P ∈ d₀.passes links here names, d.get? P = some .dir → d'.get? P = some .dir)
    (hend : d'.get? l = d.get? l) : Route d' .target links here names l := by
  induction h with
  | here => exact .here
  | dot hdot _ ih =>
    rw [passes_dot hdot] at hdirs
    exact .dot hdot (ih hdirs hend)
  | up _ ih =>
    rw [passes_up] at hdirs
    exact .up (ih hdirs hend)
  | into hname hdir _ ih =>
    rw [passes_into hname.plain hname.ahead fun target hlink => ?_] at hdirs
    · exact .into hname (hdirs _ List.mem_cons_self hdir)
        (ih (fun P hP => hdirs P (List.mem_cons_of_mem _ hP)) hend)
    · rw [← hlinks₀, hdir] at hlink
      cases hlink
  | stop hname hdir hlink =>
    rw [← hend] at hdir hlink
    exact .stop hname hdir hlink
  | along hname hlink hfollow _ ih =>
    rw [passes_along hname.plain hname.ahead ((hlinks₀ _ _).mp hlink)] at hdirs
    exact .along hname ((hlinks _ _).mpr hlink) hfollow (ih hdirs hend)

theorem stat_kept {p : Path} (hp : p.isAbsolute = true) {l : Location} {n : Node}
    (h : d.stat p = .ok (l, n))
    (hdirs : ∀ P ∈ d₀.placesOn p, d.get? P = some .dir → d'.get? P = some .dir)
    (hend : d'.get? l = some n) : d'.stat p = .ok (l, n) := by
  obtain ⟨hlocate, hn⟩ := stat_eq_ok h
  obtain ⟨hcheck, hroute⟩ := locate_iff.mp hlocate
  have hstart (d : Disk) : d.startOf p.text = [] := if_pos hp
  rw [placesOn, hstart] at hdirs
  rw [hstart] at hroute
  refine stat_of_locate (locate_iff.mpr ⟨hcheck, ?_⟩) hend
  rw [hstart]
  exact hroute.kept hlinks₀ hlinks hdirs (hend.trans hn.symm)

end

/-! ## New directories -/

namespace Grows

variable {d d' : Disk}

theorem ways (h : Grows d d') : Ways d d' where
  cwd := h.cwd
  dir _ hl := h.keeps hl
  link := h.links

theorem stat (h : Grows d d') {p : Path} {l : Location} {n : Node} (hs : d.stat p = .ok (l, n)) :
    d'.stat p = .ok (l, n) :=
  h.ways.stat hs (h.keeps (stat_eq_ok hs).2)

theorem read (h : Grows d d') {p : Path} {b : ByteArray} (hb : d.read p = .ok b) :
    d'.read p = .ok b := by
  unfold Disk.read at hb
  split at hb
  · rename_i hs
    rw [Disk.read, h.stat hs]
    exact hb
  · rename_i hs
    rw [Disk.read, h.stat hs]
    exact hb
  · cases hb
  · cases hb

end Grows

end Whittle.Disk
