import Whittle.Proofs.Disk.Tree
import Whittle.Proofs.Disk.Ways

/-!
# Making directories

A directory is made where the one above it is there. Making it once more changes nothing
(`makeDirsFrom_again`), and what could not be made cannot be made on the disk that the attempt has
left either (`makeDirsFrom_fails_again`).
-/

namespace Whittle.Disk

/-! ## One directory -/

section

variable {d d' : Disk} {p q : Path} {l : Location}

theorem makeDir_eq_ok (h : d.makeDir p = .ok d') :
    ∃ l, d.locateEntry p = .ok l ∧ d.get? l = none ∧ d' = d.put l .dir := by
  unfold makeDir at h
  split at h
  · cases h
  · rename_i l hl
    split at h
    · cases h
    · rename_i hnode
      cases h
      exact ⟨l, hl, hnode, rfl⟩

theorem get?_makeDir (hnode : d.get? l = none) (k : Location) :
    (d.put l .dir).get? k = if k = l then some .dir else d.get? k := by
  refine get?_put d ?_ .dir k
  rintro rfl
  rw [get?_nil] at hnode
  cases hnode

theorem isDir_makeDir (h : d.makeDir p = .ok d') : d'.isDir p = true := by
  have hways := (grows_makeDir h).ways
  obtain ⟨l, hl, hnode, rfl⟩ := makeDir_eq_ok h
  obtain ⟨hcheck, hroute⟩ := locateEntry_iff.mp hl
  have hdir : (d.put l .dir).get? l = some .dir := by rw [get?_makeDir hnode, if_pos rfl]
  refine isDir_of_route hcheck ?_ hdir
  rw [hways.startOf]
  exact (hways.route hroute).target fun _ target e => by
    rw [hdir] at e
    cases e

theorem isTree_makeDir (htree : d.IsTree) (h : d.makeDir p = .ok d') : d'.IsTree := by
  obtain ⟨l, hl, hnode, rfl⟩ := makeDir_eq_ok h
  obtain ⟨-, hroute⟩ := locateEntry_iff.mp hl
  rcases hroute.lands htree.nested (htree.startOf _) with hdir | ⟨above, name, rfl, hdir⟩
  · rw [hnode] at hdir
    cases hdir
  · exact htree.push hdir rfl (get?_makeDir hnode)

/-- A directory is not made where something is. -/
theorem makeDir_of_stat {n : Node} (h : d.stat p = .ok (l, n)) :
    d.makeDir p = .error (.system .alreadyExists) := by
  obtain ⟨k, hk, hnode⟩ := locateEntry_of_stat h
  obtain ⟨m, hm⟩ := Option.ne_none_iff_exists'.mp hnode
  simp only [makeDir, hk, hm]

end

/-! ## A directory and those above it -/

section

variable {d d' : Disk} {p q : Path} {fuel : Nat}

theorem makeDirsFrom_of_isDir (h : d.isDir p = true) :
    d.makeDirsFrom p (fuel + 1) = (.ok (), d) := by
  obtain ⟨l, hstat⟩ := isDir_eq_true h
  unfold makeDirsFrom
  split
  · rfl
  · rw [makeDir_of_stat hstat]
    rfl

/-- Nothing is made where something is. -/
theorem makeDirs_of_pathExists (h : d.pathExists p = true) : (d.makeDirs p).2 = d := by
  unfold pathExists at h
  cases hstat : d.stat p with
  | error e =>
    rw [hstat] at h
    cases h
  | ok found =>
    obtain ⟨l, n⟩ := found
    unfold makeDirs makeDirsFrom
    split
    · rfl
    · rw [makeDir_of_stat hstat]
      dsimp only
      split
      · rename_i hnone
        cases hnone
      · split <;> rfl

/-- What was made is there. -/
theorem makeDirsFrom_eq_ok (h : d.makeDirsFrom p fuel = (.ok (), d')) :
    p.parts = [] ∨ d'.isDir p = true := by
  cases fuel with
  | zero => cases h
  | succ fuel =>
    unfold makeDirsFrom at h
    split at h
    · rename_i hparts
      exact .inl hparts
    · refine .inr ?_
      split at h
      · rename_i hmade
        cases h
        exact isDir_makeDir hmade
      · split at h
        · split at h
          · cases h
          · split at h
            · cases h
            · split at h
              · rename_i hmade
                cases h
                exact isDir_makeDir hmade
              · split at h
                · rename_i hdir
                  cases h
                  exact hdir
                · cases h
        · split at h
          · rename_i hdir
            cases h
            exact hdir
          · cases h

/-- Once made, directories need not be made again. -/
theorem makeDirsFrom_again (h : d.makeDirsFrom p fuel = (.ok (), d')) :
    d'.makeDirsFrom p fuel = (.ok (), d') := by
  cases fuel with
  | zero => cases h
  | succ fuel =>
    rcases makeDirsFrom_eq_ok h with hparts | hdir
    · unfold makeDirsFrom
      rw [if_pos hparts]
    · exact makeDirsFrom_of_isDir hdir

theorem isTree_makeDirsFrom (htree : d.IsTree) (p : Path) (fuel : Nat) :
    (d.makeDirsFrom p fuel).2.IsTree :=
  makeDirsFrom_rel (R := fun d d' => d.IsTree → d'.IsTree) (A := fun _ => True) (fun _ h => h)
    (fun h h₁ hd => h₁ (h hd)) (fun _ _ _ _ => trivial)
    (fun _ _ _ _ hmade hd => isTree_makeDir hd hmade) d trivial fuel htree

/-- If the parent of a path cannot be made, nor can the path. -/
theorem not_made_of_parent (htree : d.IsTree) (hp : p.parent = some q) {e : IoError}
    (h : d.makeDirsFrom q (fuel + 1) = (.error e, d')) :
    (∀ d₁, d.makeDir p ≠ .ok d₁) ∧ d.isDir p ≠ true := by
  -- whatever has the path lead anywhere makes the parent a directory
  have hnowhere (l : Location) : d.locateEntry p ≠ .ok l := by
    intro hl
    rcases isDir_parent htree hl hp with hempty | hdir
    · have hparts : q.parts = [] := by
        have : q = ⟨""⟩ := congrArg Path.mk hempty
        rw [this]
        rfl
      unfold makeDirsFrom at h
      rw [if_pos hparts] at h
      cases h
    · rw [makeDirsFrom_of_isDir hdir] at h
      cases h
  constructor
  · intro d₁ hmade
    obtain ⟨l, hl, -, -⟩ := makeDir_eq_ok hmade
    exact hnowhere l hl
  · intro hdir
    obtain ⟨l, hstat⟩ := isDir_eq_true hdir
    obtain ⟨k, hk, -⟩ := locateEntry_of_stat hstat
    exact hnowhere k hk

/-- A directory is not made if the disk has no place for it, and the attempt at its parent does not
provide one. -/
theorem makeDirsFrom_fails (hparts : p.parts ≠ []) (hmake : ∀ d₁, d.makeDir p ≠ .ok d₁)
    (hdir : d.isDir p ≠ true)
    (hparent : ∀ q, p.parent = some q → d.makeDirsFrom q fuel = (.ok (), d) ∨
      ∃ e d₁, d.makeDirsFrom q fuel = (.error e, d₁)) :
    ∃ e d₁, d.makeDirsFrom p (fuel + 1) = (.error e, d₁) := by
  rw [makeDirsFrom, if_neg hparts]
  cases hmade : d.makeDir p with
  | ok d₁ => exact absurd hmade (hmake d₁)
  | error cause =>
    dsimp only
    split
    · cases hq : p.parent with
      | none => exact ⟨_, _, rfl⟩
      | some q =>
        dsimp only
        rcases hparent q hq with hrest | ⟨e, d₁, hrest⟩
        · rw [hrest]
          dsimp only
          rw [hmade]
          dsimp only
          rw [if_neg hdir]
          exact ⟨_, _, rfl⟩
        · rw [hrest]
          exact ⟨_, _, rfl⟩
    · exact ⟨_, _, rfl⟩

/-- What could not be made cannot be made on the disk that was left. -/
theorem makeDirsFrom_fails_again (htree : d.IsTree) {e : IoError}
    (h : d.makeDirsFrom p fuel = (.error e, d')) :
    ∃ e' d'', d'.makeDirsFrom p fuel = (.error e', d'') := by
  induction fuel generalizing p e d' with
  | zero => exact ⟨.noAncestor, d', rfl⟩
  | succ fuel ih =>
    have hfirst := h
    unfold makeDirsFrom at h
    split at h
    · cases h
    · rename_i hparts
      -- where nothing was made, the second attempt is the first
      split at h
      · cases h
      · split at h
        · split at h
          · cases h
            exact ⟨_, _, hfirst⟩
          · rename_i parent hparent
            split at h
            · rename_i hrest
              cases h
              have hleft : d'.IsTree := by
                have := isTree_makeDirsFrom htree parent fuel
                rwa [hrest] at this
              obtain ⟨e', d'', hagain⟩ := ih hrest
              cases fuel with
              | zero =>
                cases hrest
                exact ⟨_, _, hfirst⟩
              | succ fuel =>
                obtain ⟨hmake, hdir⟩ := not_made_of_parent hleft hparent hagain
                refine makeDirsFrom_fails hparts hmake hdir fun q hq => ?_
                cases hparent.symm.trans hq
                exact .inr ⟨e', d'', hagain⟩
            · rename_i left hrest
              split at h
              · cases h
              · rename_i hmade
                split at h
                · cases h
                · rename_i hdir
                  cases h
                  refine makeDirsFrom_fails hparts (fun d₁ hmake => ?_) hdir fun q hq => ?_
                  · rw [hmade] at hmake
                    cases hmake
                  · cases hparent.symm.trans hq
                    exact .inl (makeDirsFrom_again hrest)
        · split at h
          · cases h
          · cases h
            exact ⟨_, _, hfirst⟩

end

end Whittle.Disk
