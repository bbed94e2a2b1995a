import Whittle.Proofs.Disk.Walk

/-!
# The way of a walk

A walk that comes to a place goes by a `Route`: through directories, back up, and along links. What
holds of every walk that arrives is proved by induction on the route. Where a route ends is decided
by the links alone (`Route.aim`): directories only have to be there.
-/

namespace Whittle.Disk

open Text

/-- A name that stands for an entry of a directory. -/
structure Leads (purpose : Purpose) (name : String) (rest : List String) : Prop where
  plain : ¬ (name = "" ∨ name = ".")
  ahead : name ≠ ".."
  slash : ¬ (purpose = .file ∧ rest = [""])
  size : name.utf8ByteSize ≤ nameLimit

theorem Leads.change {purpose purpose' : Purpose} {name : String} {rest rest' : List String}
    (h : Leads purpose name rest) (hpurpose : purpose' ≠ .file) : Leads purpose' name rest' :=
  ⟨h.plain, h.ahead, fun e => hpurpose e.1, h.size⟩

/-- How names lead from one place to another, by at most so many links. -/
inductive Route (d : Disk) (purpose : Purpose) :
    Nat → Location → List String → Location → Prop
  | here {links : Nat} {place : Location} : Route d purpose links place [] place
  | dot {links : Nat} {here l : Location} {name : String} {rest : List String}
    (hdot : name = "" ∨ name = ".") (h : Route d purpose links here rest l) :
    Route d purpose links here (name :: rest) l
  | up {links : Nat} {here l : Location} {rest : List String}
    (h : Route d purpose links here.dropLast rest l) : Route d purpose links here (".." :: rest) l
  | into {links : Nat} {here l : Location} {name : String} {rest : List String}
    (hname : Leads purpose name rest) (hdir : d.get? (here ++ [name]) = some .dir)
    (h : Route d purpose links (here ++ [name]) rest l) :
    Route d purpose links here (name :: rest) l
  | stop {links : Nat} {here : Location} {name : String} (hname : Leads purpose name [])
    (hdir : d.get? (here ++ [name]) ≠ some .dir)
    (hlink : ∀ target, d.get? (here ++ [name]) = some (.link target) → purpose = .entry) :
    Route d purpose links here [name] (here ++ [name])
  | along {links : Nat} {here l : Location} {name target : String} {rest : List String}
    (hname : Leads purpose name rest) (hlink : d.get? (here ++ [name]) = some (.link target))
    (hfollow : ¬ (rest = [] ∧ purpose = .entry))
    (h : Route d purpose links (if isAbsoluteText target then [] else here)
      (stepsOf target ++ rest) l) :
    Route d purpose (links + 1) here (name :: rest) l

/-! ## Walks and routes -/

section

variable {d : Disk} {purpose : Purpose}

theorem route_of_walkNames {links : Nat} {follow : Location → List String → Except Errno Location}
    (hfollow : ∀ here names l, follow here names = .ok l →
      ∃ k, links = k + 1 ∧ Route d purpose k here names l)
    {here l : Location} {names : List String}
    (h : d.walkNames purpose follow here names = .ok l) : Route d purpose links here names l := by
  induction names generalizing here with
  | nil =>
    cases h
    exact .here
  | cons name rest ih =>
    rw [walkNames] at h
    split at h
    · rename_i hdot
      exact .dot hdot (ih h)
    · rename_i hdot
      split at h
      · rename_i hup
        subst hup
        exact .up (ih h)
      · rename_i hup
        split at h
        · cases h
        · rename_i hfile
          split at h
          · cases h
          · rename_i hsize
            have hname : Leads purpose name rest := ⟨hdot, hup, hfile, Nat.not_lt.mp hsize⟩
            split at h
            · rename_i hnode
              split at h
              · rename_i hrest
                cases h
                subst hrest
                exact .stop hname (by simp [hnode]) (by simp [hnode])
              · cases h
            · rename_i hnode
              exact .into hname hnode (ih h)
            · rename_i target hnode
              split at h
              · rename_i hentry
                cases h
                obtain ⟨rfl, hentry⟩ := hentry
                exact .stop hname (by simp [hnode]) fun _ _ => hentry
              · rename_i hentry
                obtain ⟨k, rfl, hroute⟩ := hfollow _ _ _ h
                exact .along hname hnode hentry hroute
            · rename_i n hdir hlink hnode
              split at h
              · rename_i hrest
                cases h
                subst hrest
                refine .stop hname (fun e => hdir ?_) fun target e => (hlink target ?_).elim
                · exact Option.some.inj (hnode.symm.trans e)
                · exact Option.some.inj (hnode.symm.trans e)
              · cases h

theorem route_of_walk {links : Nat} {here l : Location} {names : List String}
    (h : d.walk purpose links here names = .ok l) : Route d purpose links here names l := by
  induction links generalizing here l names with
  | zero => exact route_of_walkNames (fun _ _ _ e => by cases e) h
  | succ links ih => exact route_of_walkNames (fun _ _ _ e => ⟨links, rfl, ih e⟩) h

/-- A walk is the walk along the names, links being followed by the walk with one link less. -/
def walkOn (d : Disk) (purpose : Purpose) : Nat → Location → List String → Except Errno Location
  | 0 => fun _ _ => .error .tooManyLinks
  | links + 1 => d.walk purpose links

theorem walk_eq (links : Nat) :
    d.walk purpose links = d.walkNames purpose (d.walkOn purpose links) := by
  cases links <;> rfl

theorem Route.walk {links : Nat} {here l : Location} {names : List String}
    (h : Route d purpose links here names l) : d.walk purpose links here names = .ok l := by
  induction h with
  | here => rw [walk_eq, walkNames]
  | dot hdot _ ih => rw [walk_eq, walkNames, if_pos hdot, ← walk_eq, ih]
  | up _ ih => rw [walk_eq, walkNames, if_neg (by decide), if_pos rfl, ← walk_eq, ih]
  | into hname hdir _ ih =>
    rw [walk_eq, walkNames, if_neg hname.plain, if_neg hname.ahead, if_neg hname.slash,
      if_neg (Nat.not_lt.mpr hname.size), hdir, ← ih, walk_eq]
  | stop hname hdir hlink =>
    rename_i here name
    rw [walk_eq, walkNames, if_neg hname.plain, if_neg hname.ahead, if_neg hname.slash,
      if_neg (Nat.not_lt.mpr hname.size)]
    cases hnode : d.get? (here ++ [name]) with
    | none => rfl
    | some n =>
      cases n with
      | link target => simp [hlink target hnode]
      | dir => exact absurd hnode hdir
      | file _ _ _ => rfl
      | sink => rfl
  | along hname hlink hfollow _ ih =>
    rw [walk_eq, walkNames, if_neg hname.plain, if_neg hname.ahead, if_neg hname.slash,
      if_neg (Nat.not_lt.mpr hname.size), hlink]
    simp only [if_neg hfollow]
    exact ih

theorem walk_iff {links : Nat} {here l : Location} {names : List String} :
    d.walk purpose links here names = .ok l ↔ Route d purpose links here names l :=
  ⟨route_of_walk, Route.walk⟩

end

/-! ## Where routes end -/

namespace Route

variable {d d' : Disk} {purpose : Purpose} {links links' : Nat} {here l l' : Location}
  {names : List String}

/-- What a route comes to from a directory can be reached. -/
theorem reached (h : Route d purpose links here names l) (hr : Reached d here)
    (hdir : d.get? here = some .dir) (hs : ∀ n ∈ names, Lacks '/' n) : Reached d l := by
  have hname {name : String} {rest : List String} (hs : ∀ n ∈ name :: rest, Lacks '/' n)
      (hleads : Leads purpose name rest) : IsName name :=
    ⟨fun e => hleads.plain (.inl e), fun e => hleads.plain (.inr e), hleads.ahead,
      hs name List.mem_cons_self⟩
  induction h with
  | here => exact hr
  | dot _ _ ih => exact ih hr hdir fun n hn => hs n (List.mem_cons_of_mem _ hn)
  | up _ ih =>
    exact ih (hr.of_prefix (List.dropLast_prefix _)) (hr.dir_dropLast hdir)
      fun n hn => hs n (List.mem_cons_of_mem _ hn)
  | into hleads hnext _ ih =>
    exact ih (hr.push hdir (hname hs hleads) hleads.size) hnext
      fun n hn => hs n (List.mem_cons_of_mem _ hn)
  | stop hleads => exact hr.push hdir (hname hs hleads) hleads.size
  | along _ _ _ _ ih =>
    refine ih ?_ ?_ fun n hn => ?_
    · split
      · exact .nil
      · exact hr
    · split
      · exact get?_nil d
      · exact hdir
    · rcases List.mem_append.mp hn with hn | hn
      · exact lacks_of_mem_stepsOf hn
      · exact hs n (List.mem_cons_of_mem _ hn)

theorem lexical (hd : d.Linkless) (h : Route d purpose links here names l) :
    l = Disk.lexical here names := by
  have hahead {name : String} {rest : List String} {here : Location}
      (hleads : Leads purpose name rest) :
      Disk.lexical here (name :: rest) = Disk.lexical (here ++ [name]) rest := by
    rw [Disk.lexical, if_neg hleads.plain, if_neg hleads.ahead]
  induction h with
  | here => rfl
  | dot hdot _ ih => rw [Disk.lexical, if_pos hdot, ih]
  | up _ ih => rw [Disk.lexical, if_neg (by decide), if_pos rfl, ih]
  | into hleads _ _ ih => rw [hahead hleads, ih]
  | stop hleads => rw [hahead hleads, Disk.lexical]
  | along _ hlink => exact absurd hlink (hd _ _)

/-- Names that are all in place are a route; a link at the end is for an entry only. -/
theorem of_reached (h : Reached d (here ++ names))
    (hlink : ∀ target, d.get? (here ++ names) = some (.link target) → purpose = .entry) :
    Route d purpose links here names (here ++ names) := by
  induction names generalizing here with
  | nil =>
    rw [List.append_nil]
    exact .here
  | cons n ns ih =>
    have hmem : ∀ m ∈ n :: ns, m ∈ here ++ n :: ns := fun m hm => List.mem_append_right _ hm
    obtain ⟨⟨hempty, hdot, hup, -⟩, hsize⟩ := h.names n (hmem n List.mem_cons_self)
    have hslash : ns ≠ [""] := by
      rintro rfl
      exact (h.isName "" (hmem "" (by simp))).1 rfl
    have hleads : Leads purpose n ns :=
      ⟨by rintro (e | e); exacts [hempty e, hdot e], hup, fun e => hslash e.2, hsize⟩
    have hassoc : here ++ n :: ns = here ++ [n] ++ ns := by simp
    rw [hassoc] at h hlink ⊢
    by_cases hnode : d.get? (here ++ [n]) = some .dir
    · exact .into hleads hnode (ih h hlink)
    · have hlast : ns = [] := by
        by_contra hne
        exact hnode (h.above _ (List.prefix_append _ _) (by simpa using hne))
      subst hlast
      rw [List.append_nil] at hlink ⊢
      exact .stop hleads hnode hlink

/-- A route by names that do not go up and are not links ends where they say. -/
theorem of_ahead (h : Route d purpose links here names l) (hup : ".." ∉ names)
    (hclear : d.Clear (Disk.lexical here names)) : l = Disk.lexical here names := by
  have hahead {purpose : Purpose} {here : Location} {name : String} {rest : List String}
      (hname : Leads purpose name rest) :
      Disk.lexical here (name :: rest) = Disk.lexical (here ++ [name]) rest := by
    rw [Disk.lexical, if_neg hname.plain, if_neg hname.ahead]
  induction h with
  | here => rfl
  | dot hdot _ ih =>
    rw [Disk.lexical, if_pos hdot] at hclear ⊢
    exact ih (fun hmem => hup (List.mem_cons_of_mem _ hmem)) hclear
  | up => exact absurd List.mem_cons_self hup
  | into hname _ _ ih =>
    rw [hahead hname] at hclear ⊢
    exact ih (fun hmem => hup (List.mem_cons_of_mem _ hmem)) hclear
  | stop hname => rw [hahead hname, Disk.lexical]
  | along hname hlink =>
    rw [hahead hname] at hclear
    exact absurd hlink
      (hclear _ _ (prefix_lexical (fun hmem => hup (List.mem_cons_of_mem _ hmem)) _))

/-- Where a route ends is up to the links alone. -/
theorem aim (h : Route d' .target links here names l) (hlinks : SameLinks d d') :
    d.aim links here names = some l := by
  induction h with
  | here => exact aim_nil
  | dot hdot _ ih => rw [aim_dot hdot, ih]
  | up _ ih => rw [aim_up, ih]
  | into hname hdir _ ih =>
    rw [aim_into hname.plain hname.ahead, ih]
    intro target hlink
    rw [← hlinks, hdir] at hlink
    cases hlink
  | stop hname _ hlink =>
    rw [aim_into hname.plain hname.ahead, aim_nil]
    intro target htarget
    cases hlink target ((hlinks _ _).mpr htarget)
  | along hname hlink _ _ ih => rw [aim_along hname.plain hname.ahead ((hlinks _ _).mp hlink), ih]

/-- Only a link at the end makes a difference between what a walk can be for. -/
theorem target (h : Route d purpose links here names l)
    (hlink : purpose = .entry → ∀ target, d.get? l ≠ some (.link target)) :
    Route d .target links here names l := by
  induction h with
  | here => exact .here
  | dot hdot _ ih => exact .dot hdot (ih hlink)
  | up _ ih => exact .up (ih hlink)
  | into hname hnext _ ih => exact .into (hname.change nofun) hnext (ih hlink)
  | stop hname hdir hentry =>
    exact .stop (hname.change nofun) hdir fun target e => absurd e (hlink (hentry target e) target)
  | along hname hnode _ _ ih =>
    exact .along (hname.change nofun) hnode (fun e => nomatch e.2) (ih hlink)

end Route

/-! ## Places of paths -/

section

variable {d d' : Disk} {purpose : Purpose} {p : Path} {l m : Location}

theorem locate_iff :
    d.locate purpose p = .ok l ↔ checkText p.text = .ok () ∧
      Route d purpose linkBudget (d.startOf p.text) (stepsOf p.text) l := by
  unfold locate
  rw [← walk_iff]
  cases checkText p.text with
  | error e => exact ⟨fun h => (by cases h), fun h => (by cases h.1)⟩
  | ok _ => exact ⟨fun h => ⟨rfl, h⟩, fun h => h.2⟩

theorem locateEntry_iff :
    d.locateEntry p = .ok l ↔ checkText p.text = .ok () ∧
      Route d .entry linkBudget (d.startOf p.text) (namesOf p.text) l := by
  unfold locateEntry
  rw [← walk_iff]
  cases checkText p.text with
  | error e => exact ⟨fun h => (by cases h), fun h => (by cases h.1)⟩
  | ok _ => exact ⟨fun h => ⟨rfl, h⟩, fun h => h.2⟩

/-- A path starts from a directory that can be reached: a relative one, from the current one. -/
structure Starts (d : Disk) (p : Path) : Prop where
  reached : Reached d (d.startOf p.text)
  dir : d.get? (d.startOf p.text) = some .dir

theorem starts_of_absolute (hp : p.isAbsolute = true) : d.Starts p := by
  have hstart : d.startOf p.text = [] := if_pos hp
  exact ⟨hstart ▸ .nil, hstart ▸ get?_nil d⟩

/-- What a path leads to can be reached if the start can. -/
theorem Starts.locate (hstart : d.Starts p) (h : d.locate purpose p = .ok l) : Reached d l :=
  (locate_iff.mp h).2.reached hstart.reached hstart.dir fun _ hn => lacks_of_mem_stepsOf hn

theorem Starts.locateEntry (hstart : d.Starts p) (h : d.locateEntry p = .ok l) : Reached d l :=
  (locateEntry_iff.mp h).2.reached hstart.reached hstart.dir
    fun _ hn => lacks_of_mem_segments (List.mem_filter.mp hn).1

/-- There is no link at the place of a path, nor above it. -/
theorem Starts.clear (hstart : d.Starts p) (h : d.placeOf p = some l) : d.Clear l := by
  have haim (links : Nat) (here : Location) (names : List String) :
      d.Clear here → d.aim links here names = some l → d.Clear l := by
    induction links, here, names using aim_induct (d := d) with
    | nil links here =>
      intro hhere h
      rw [aim_nil] at h
      exact Option.some.inj h ▸ hhere
    | dot links here name rest hdot ih =>
      intro hhere h
      exact ih hhere (aim_dot hdot ▸ h)
    | up links here rest ih =>
      intro hhere h
      exact ih (hhere.above (List.dropLast_prefix _)) (aim_up ▸ h)
    | into links here name rest hdot hup hlink ih =>
      intro hhere h
      refine ih (fun P target hP => ?_) (aim_into hdot hup hlink ▸ h)
      rcases List.prefix_concat_iff.mp hP with rfl | hP
      · exact hlink target
      · exact hhere P target hP
    | along links here name rest target hdot hup hlink ih =>
      intro hhere h
      refine ih ?_ (aim_along hdot hup hlink ▸ h)
      split
      · exact Reached.nil.clear (by simp [get?_nil])
      · exact hhere
    | stuck here name rest target hdot hup hlink =>
      intro _ h
      rw [aim_stuck hdot hup hlink] at h
      cases h
  exact haim _ _ _ (hstart.reached.clear (by simp [hstart.dir])) h

/-- What an absolute path leads to can be reached. -/
theorem locate_reached (hp : p.isAbsolute = true) (h : d.locate purpose p = .ok l) :
    Reached d l := (starts_of_absolute hp).locate h

/-- A path that is written from a place leads there, if no link is on the way. -/
theorem locate_pathOf_iff (hclear : d.Clear m) (hm : ∀ n ∈ m, IsName n) :
    d.locate purpose (pathOf m) = .ok l ↔
      checkText (pathOf m).text = .ok () ∧ Reached d m ∧ l = m := by
  have hstart : d.startOf (pathOf m).text = [] := if_pos (isAbsolute_pathOf m)
  constructor
  · intro h
    have hreached := locate_reached (isAbsolute_pathOf m) h
    obtain ⟨hcheck, hroute⟩ := locate_iff.mp h
    rw [hstart, stepsOf_pathOf hm] at hroute
    have hplace : lexical [] m = m := lexical_names hm []
    have hl := hroute.of_ahead (fun hup => (hm _ hup).2.2.1 rfl) (hplace.symm ▸ hclear)
    rw [hplace] at hl
    exact ⟨hcheck, hl ▸ hreached, hl⟩
  · rintro ⟨hcheck, hreached, rfl⟩
    refine locate_iff.mpr ⟨hcheck, ?_⟩
    rw [hstart, stepsOf_pathOf hm]
    exact @Route.of_reached d purpose linkBudget [] l hreached fun target e =>
      absurd e (hclear l target (List.prefix_refl l))

theorem locateEntry_pathOf (hm : ∀ n ∈ m, IsName n) :
    d.locateEntry (pathOf m) = d.locate .entry (pathOf m) := by
  rw [locateEntry, locate, namesOf_pathOf hm, stepsOf_pathOf hm]

theorem stat_pathOf_iff (hclear : d.Clear m) (hm : ∀ n ∈ m, IsName n) {n : Node} :
    d.stat (pathOf m) = .ok (l, n) ↔
      checkText (pathOf m).text = .ok () ∧ Reached d m ∧ l = m ∧ d.get? m = some n := by
  constructor
  · intro h
    obtain ⟨hl, hn⟩ := stat_eq_ok h
    obtain ⟨hcheck, hreached, rfl⟩ := (locate_pathOf_iff hclear hm).mp hl
    exact ⟨hcheck, hreached, rfl, hn⟩
  · rintro ⟨hcheck, hreached, rfl, hn⟩
    exact stat_of_locate ((locate_pathOf_iff hclear hm).mpr ⟨hcheck, hreached, rfl⟩) hn

/-- A path leads to its place, whatever directories have been made since. -/
theorem placeOf_of_locate (hstart : d'.startOf p.text = d.startOf p.text) (hlinks : SameLinks d d')
    (h : d'.locate .target p = .ok l) : d.placeOf p = some l := by
  obtain ⟨-, hroute⟩ := locate_iff.mp h
  rw [hstart] at hroute
  rw [placeOf, ← aim_stepsOf]
  exact hroute.aim hlinks

theorem placeOf_eq (hp : p.isAbsolute = true) (hlinks : SameLinks d d')
    (h : d'.locate .target p = .ok l) : d.placeOf p = some l :=
  placeOf_of_locate ((if_pos hp).trans (if_pos hp).symm) hlinks h

end

end Whittle.Disk
