import Whittle.Proofs.Disk.Frame
import Whittle.Proofs.Disk.Parent

/-!
# Walks on a tree

On a disk that is a tree a walk stays in directories up to the last name. So the parent of a path
that leads anywhere is a directory (`isDir_parent`); and a walk to something finds the entry that
the last name stands for, whether the walk follows a link there or not (`locateEntry_of_stat`).
-/

namespace Whittle.Disk

/-- Whatever stands anywhere stands in a directory. -/
def Nested (d : Disk) : Prop := ∀ l name n, d.get? (l ++ [name]) = some n → d.get? l = some .dir

theorem Nested.dropLast {d : Disk} (h : d.Nested) {l : Location} (hdir : d.get? l = some .dir) :
    d.get? l.dropLast = some .dir := by
  rcases l.eq_nil_or_concat' with rfl | ⟨above, name, rfl⟩
  · exact hdir
  · rw [List.dropLast_concat]
    exact h above name _ hdir

/-- Everything stands in a directory if every entry does. -/
theorem nested_of_entries {d : Disk}
    (h : ∀ e ∈ d.entries, d.get? e.1.dropLast = some .dir) : d.Nested := by
  intro l name n hn
  rw [get?, if_neg (by simp)] at hn
  have hl := h _ (mem_of_valueAt hn)
  rwa [List.dropLast_concat] at hl

/-- Whatever stands anywhere stands in a directory, and relative paths start from one. -/
structure IsTree (d : Disk) : Prop where
  above : ∀ l name n, d.get? (l ++ [name]) = some n → d.get? l = some .dir
  cwd : d.get? d.cwd = some .dir

namespace IsTree

variable {d : Disk} (h : d.IsTree)
include h

theorem nested : d.Nested := h.above

theorem startOf (text : String) : d.get? (d.startOf text) = some .dir := by
  unfold Disk.startOf
  split
  · exact get?_nil d
  · exact h.cwd

/-- A new directory in a directory. -/
theorem push {d' : Disk} {l : Location} {name : String} (hl : d.get? l = some .dir)
    (hcwd : d'.cwd = d.cwd)
    (hget : ∀ m, d'.get? m = if m = l ++ [name] then some .dir else d.get? m) : d'.IsTree := by
  have hkept {m : Location} (hm : d.get? m = some .dir) : d'.get? m = some .dir := by
    rw [hget]
    split
    · rfl
    · exact hm
  refine ⟨fun m k n hn => ?_, hcwd ▸ hkept h.cwd⟩
  rw [hget] at hn
  split at hn
  · rename_i e
    obtain ⟨rfl, -⟩ := List.append_inj' e rfl
    exact hkept hl
  · exact hkept (h.above m k n hn)

end IsTree

/-! ## Routes -/

namespace Route

variable {d : Disk} {purpose : Purpose} {links : Nat} {here l : Location} {names : List String}

/-- Before the last name a route has come to a directory. -/
theorem front (hnested : d.Nested) (h : Route d purpose links here names l)
    (hdir : d.get? here = some .dir) {first rest : List String} (hnames : names = first ++ rest)
    (hrest : rest ≠ []) : ∃ m, Route d .target links here first m ∧ d.get? m = some .dir := by
  induction h generalizing first with
  | @here _ place =>
    rw [(List.append_eq_nil_iff.mp hnames.symm).1]
    exact ⟨place, .here, hdir⟩
  | @dot _ here _ name _ hdot _ ih =>
    cases first with
    | nil => exact ⟨here, .here, hdir⟩
    | cons first firsts =>
      obtain ⟨rfl, htail⟩ := List.cons.inj hnames
      obtain ⟨m, hm, hmdir⟩ := ih hdir htail
      exact ⟨m, .dot hdot hm, hmdir⟩
  | @up _ here _ _ _ ih =>
    cases first with
    | nil => exact ⟨here, .here, hdir⟩
    | cons first firsts =>
      obtain ⟨rfl, htail⟩ := List.cons.inj hnames
      obtain ⟨m, hm, hmdir⟩ := ih (hnested.dropLast hdir) htail
      exact ⟨m, .up hm, hmdir⟩
  | @into _ here _ _ _ hname hnext _ ih =>
    cases first with
    | nil => exact ⟨here, .here, hdir⟩
    | cons first firsts =>
      obtain ⟨rfl, htail⟩ := List.cons.inj hnames
      obtain ⟨m, hm, hmdir⟩ := ih hnext htail
      exact ⟨m, .into (hname.change nofun) hnext hm, hmdir⟩
  | @stop _ here =>
    cases first with
    | nil => exact ⟨here, .here, hdir⟩
    | cons first firsts =>
      obtain ⟨-, hnames⟩ := List.cons.inj hnames
      exact absurd (List.append_eq_nil_iff.mp hnames.symm).2 hrest
  | @along _ here _ _ target _ hname hlink _ _ ih =>
    cases first with
    | nil => exact ⟨here, .here, hdir⟩
    | cons first firsts =>
      obtain ⟨rfl, rfl⟩ := List.cons.inj hnames
      have hstart : d.get? (if isAbsoluteText target then [] else here) = some .dir := by
        split
        · exact get?_nil d
        · exact hdir
      obtain ⟨m, hm, hmdir⟩ := ih hstart (List.append_assoc ..).symm
      exact ⟨m, .along (hname.change nofun) hlink (fun e => nomatch e.2) hm, hmdir⟩

/-- A route ends at a directory, or at a name in one. -/
theorem lands (hnested : d.Nested) (h : Route d purpose links here names l)
    (hdir : d.get? here = some .dir) :
    d.get? l = some .dir ∨ ∃ above name, l = above ++ [name] ∧ d.get? above = some .dir := by
  induction h with
  | here => exact .inl hdir
  | dot _ _ ih => exact ih hdir
  | up _ ih => exact ih (hnested.dropLast hdir)
  | into _ hnext _ ih => exact ih hnext
  | stop => exact .inr ⟨_, _, rfl, hdir⟩
  | along _ _ _ _ ih =>
    refine ih ?_
    split
    · exact get?_nil d
    · exact hdir

/-- A slash may follow the name of a directory. -/
theorem slash (h : Route d .target links here names l) (hdir : d.get? l = some .dir) :
    Route d .target links here (names ++ [""]) l := by
  induction h with
  | here => exact .dot (.inl rfl) .here
  | dot hdot _ ih => exact .dot hdot (ih hdir)
  | up _ ih => exact .up (ih hdir)
  | into hname hnext _ ih => exact .into (hname.change nofun) hnext (ih hdir)
  | stop _ hnone => exact absurd hdir hnone
  | along hname hnode _ _ ih =>
    have hroute := ih hdir
    rw [List.append_assoc] at hroute
    exact .along (hname.change nofun) hnode (fun e => nomatch e.2) hroute

theorem unslash (h : Route d .target links here (names ++ [""]) l) :
    Route d .target links here names l := by
  generalize hsteps : names ++ [""] = steps at h
  induction h generalizing names with
  | here => exact absurd hsteps (by simp)
  | @dot _ _ _ name _ hdot h ih =>
    cases names with
    | nil =>
      obtain ⟨-, rfl⟩ := List.cons.inj hsteps
      exact h
    | cons first names =>
      obtain ⟨rfl, htail⟩ := List.cons.inj hsteps
      exact .dot hdot (ih htail)
  | up _ ih =>
    cases names with
    | nil => exact absurd (List.cons.inj hsteps).1 (by decide)
    | cons first names =>
      obtain ⟨rfl, htail⟩ := List.cons.inj hsteps
      exact .up (ih htail)
  | into hname hnext _ ih =>
    cases names with
    | nil => exact absurd (.inl (List.cons.inj hsteps).1.symm) hname.plain
    | cons first names =>
      obtain ⟨rfl, htail⟩ := List.cons.inj hsteps
      exact .into (hname.change nofun) hnext (ih htail)
  | stop hname =>
    cases names with
    | nil => exact absurd (.inl (List.cons.inj hsteps).1.symm) hname.plain
    | cons first names => exact absurd (List.cons.inj hsteps).2 (by simp)
  | along hname hnode _ _ ih =>
    cases names with
    | nil => exact absurd (.inl (List.cons.inj hsteps).1.symm) hname.plain
    | cons first names =>
      obtain ⟨rfl, rfl⟩ := List.cons.inj hsteps
      exact .along (hname.change nofun) hnode (fun e => nomatch e.2)
        (ih (List.append_assoc ..))

/-- Where a walk comes to something, the entry that the last name stands for is there. -/
theorem entry (h : Route d .target links here names l) (hl : d.get? l ≠ none) :
    ∃ k, Route d .entry links here names k ∧ d.get? k ≠ none := by
  induction h with
  | here => exact ⟨_, .here, hl⟩
  | dot hdot _ ih =>
    obtain ⟨k, hk, hnode⟩ := ih hl
    exact ⟨k, .dot hdot hk, hnode⟩
  | up _ ih =>
    obtain ⟨k, hk, hnode⟩ := ih hl
    exact ⟨k, .up hk, hnode⟩
  | into hname hnext _ ih =>
    obtain ⟨k, hk, hnode⟩ := ih hl
    exact ⟨k, .into (hname.change nofun) hnext hk, hnode⟩
  | stop hname hdir => exact ⟨_, .stop (hname.change nofun) hdir fun _ _ => rfl, hl⟩
  | @along _ here _ name target rest hname hnode _ _ ih =>
    by_cases hrest : rest = []
    · subst hrest
      exact ⟨_, .stop (hname.change nofun) (by simp [hnode]) fun _ _ => rfl, by simp [hnode]⟩
    · obtain ⟨k, hk, hend⟩ := ih hl
      exact ⟨k, .along (hname.change nofun) hnode (fun e => hrest e.1) hk, hend⟩

end Route

/-! ## Places of paths -/

section

variable {d d' : Disk} {p q : Path} {l : Location}

theorem stepsOf_eq (text : String) :
    stepsOf text = namesOf text ∨ stepsOf text = namesOf text ++ [""] := by
  simp only [stepsOf]
  split
  · exact .inr rfl
  · exact .inl rfl

/-- A directory is found by its path, with a slash at the end or without. -/
theorem isDir_of_route (hcheck : checkText p.text = .ok ())
    (h : Route d .target linkBudget (d.startOf p.text) (namesOf p.text) l)
    (hdir : d.get? l = some .dir) : d.isDir p = true := by
  have hlocate : d.locate .target p = .ok l := by
    refine locate_iff.mpr ⟨hcheck, ?_⟩
    rcases stepsOf_eq p.text with e | e
    · rw [e]
      exact h
    · rw [e]
      exact h.slash hdir
  rw [isDir, stat_of_locate hlocate hdir]
  rfl

/-- The names of a path lead where the path leads, without a slash at the end. -/
theorem route_of_locate (h : d.locate .target p = .ok l) :
    Route d .target linkBudget (d.startOf p.text) (namesOf p.text) l := by
  obtain ⟨-, hroute⟩ := locate_iff.mp h
  rcases stepsOf_eq p.text with e | e
  · rwa [e] at hroute
  · rw [e] at hroute
    exact hroute.unslash

theorem locateEntry_of_stat {n : Node} (h : d.stat p = .ok (l, n)) :
    ∃ k, d.locateEntry p = .ok k ∧ d.get? k ≠ none := by
  obtain ⟨hlocate, hnode⟩ := stat_eq_ok h
  obtain ⟨hcheck, -⟩ := locate_iff.mp hlocate
  obtain ⟨k, hk, hend⟩ := (route_of_locate hlocate).entry (by simp [hnode])
  exact ⟨k, locateEntry_iff.mpr ⟨hcheck, hk⟩, hend⟩

theorem isDir_eq_true (h : d.isDir p = true) : ∃ l, d.stat p = .ok (l, .dir) := by
  unfold isDir at h
  split at h
  · rename_i l n hstat
    cases n <;> first | exact ⟨l, hstat⟩ | cases h
  · cases h

theorem checkText_of_append {front rest : String} (h : checkText (front ++ rest) = .ok ())
    (hne : front ≠ "") : checkText front = .ok () := by
  obtain ⟨hnul, -, hlong⟩ := checkText_eq_ok.mp h
  refine checkText_eq_ok.mpr ⟨fun hmem => hnul ?_, hne, ?_⟩
  · rw [String.toList_append]
    exact List.mem_append_left _ hmem
  · rw [String.utf8ByteSize_append] at hlong
    omega

/-- Where a path leads anywhere, its parent is a directory. -/
theorem isDir_parent (htree : d.IsTree) (h : d.locateEntry p = .ok l) (hp : p.parent = some q) :
    q.text = "" ∨ d.isDir q = true := by
  by_cases hne : q.text = ""
  · exact .inl hne
  · obtain ⟨part, -, -, -, hextends⟩ := Path.extends_of_parent hp
    obtain ⟨hcheck, hroute⟩ := locateEntry_iff.mp h
    obtain ⟨rest, htext⟩ := hextends.text
    obtain ⟨mid, back, hnames, -⟩ := hextends.names
    have hstart : d.startOf q.text = d.startOf p.text := by
      show (if q.isAbsolute then _ else _) = if p.isAbsolute then _ else _
      rw [hextends.absolute]
    rw [List.append_assoc] at hnames
    obtain ⟨m, hm, hdir⟩ := hroute.front htree.nested (htree.startOf _) hnames (by simp)
    rw [← hstart] at hm
    rw [htext] at hcheck
    exact .inr (isDir_of_route (checkText_of_append hcheck hne) hm hdir)

end

end Whittle.Disk
