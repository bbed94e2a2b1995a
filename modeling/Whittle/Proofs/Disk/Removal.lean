import Whittle.Proofs.Disk.Naming
import Whittle.Workspace.Ledger

/-!
# What a removal takes away

Removing a file, an artifact or a directory with everything in it takes away at most what stands at
one place and below it, and brings nothing (`Sheds`), however far it comes.
-/

namespace Whittle.Disk

/-- Two disks that differ at most at a place and below it, where the second one has less. -/
structure Sheds (d d' : Disk) (m : Location) : Prop where
  old : ∀ P n, d'.get? P = some n → d.get? P = some n
  other : ∀ P, ¬ m <+: P → d'.get? P = d.get? P

namespace Sheds

variable {d d₁ d' : Disk} {m : Location}

theorem refl (d : Disk) (m : Location) : Sheds d d m := ⟨fun _ _ h => h, fun _ _ => rfl⟩

theorem trans (h : Sheds d d₁ m) (h₁ : Sheds d₁ d' m) : Sheds d d' m :=
  ⟨fun P n hn => h.old P n (h₁.old P n hn), fun P hP => (h₁.other P hP).trans (h.other P hP)⟩

/-- No link is taken away where none is. -/
theorem links (h : Sheds d d' m) (hm : d.Straight m) : SameLinks d d' := by
  refine fun P target => ⟨h.old P _, fun hn => ?_⟩
  rwa [h.other P fun hP => hm P target (.inr hP) hn]

theorem holds (h : Sheds d d' m) {l : Location} (hm : ¬ m <+: l) : Holds l d d' := by
  intro P n hP hn
  rw [h.other P fun hmP => hm (hmP.trans hP), hn]

theorem clear (h : Sheds d d' m) {l : Location} (hl : d.Clear l) : d'.Clear l :=
  fun P target hP hn => hl P target hP (h.old P _ hn)

theorem of_alters (h : Alters d d' m none) : Sheds d d' m where
  old P n hn := by
    rw [h.get?] at hn
    split at hn
    · cases hn
    · exact hn
  other P hP := h.other fun e => hP (e ▸ List.prefix_refl m)

end Sheds

/-! ## Emptying a directory -/

/-- The disk without what is below a place. -/
def emptied (d : Disk) (m : Location) : Disk :=
  { d with entries := d.entries.filter fun e => !(m.isPrefixOf e.1) || e.1 = m }

theorem get?_emptied (d : Disk) (m P : Location) :
    (d.emptied m).get? P = if m <+: P ∧ P ≠ m then none else d.get? P := by
  have hkept : (!(m.isPrefixOf P) || decide (P = m)) = true ↔ ¬ (m <+: P ∧ P ≠ m) := by
    rw [Bool.or_eq_true, Bool.not_eq_true', ← Bool.not_eq_true, List.isPrefixOf_iff_prefix,
      decide_eq_true_iff, not_and_or, not_not]
  unfold Disk.get? emptied
  dsimp only
  rw [valueAt_filter (fun k => !(m.isPrefixOf k) || k = m) P d.entries]
  by_cases hP : m <+: P ∧ P ≠ m
  · have hroot : P ≠ [] := by
      rintro rfl
      exact hP.2 (List.prefix_nil.mp hP.1).symm
    rw [if_neg hroot, if_neg (fun e => hkept.mp e hP), if_pos hP]
  · rw [if_pos (hkept.mpr hP), if_neg hP]

theorem sheds_emptied (d : Disk) (m : Location) : Sheds d (d.emptied m) m where
  old P n hn := by
    rw [get?_emptied] at hn
    split at hn
    · cases hn
    · exact hn
  other P hP := by rw [get?_emptied, if_neg fun h => hP h.1]

theorem hasChildren_emptied (d : Disk) (m : Location) : (d.emptied m).hasChildren m = false := by
  have hbelow : (d.emptied m).below m = [] := by
    refine List.filterMap_eq_nil_iff.mpr fun e he => if_neg fun h => ?_
    obtain ⟨-, hkept⟩ := List.mem_filter.mp he
    simp [h.1, h.2] at hkept
  rw [hasChildren, hbelow]
  rfl

/-! ## Nothing is brought -/

theorem removeDir_eq_ok {d d' : Disk} {p : Path} (h : d.removeDir p = .ok d') :
    ∃ l n, d.locateEntry p = .ok l ∧ (namesOf p.text).getLast? = some n ∧ n ≠ "." ∧
      d.hasChildren l = false ∧ d' = d.erase l := by
  unfold removeDir at h
  split at h
  · cases h
  · rename_i l hl
    split at h
    · cases h
    · cases h
    · cases h
    · rename_i n hdot hup hlast
      split at h
      · cases h
      · split at h
        · cases h
        · rename_i hchildren
          cases h
          exact ⟨l, n, hl, hlast, hdot, by simpa using hchildren, rfl⟩
      · cases h

/-- The second disk is the first without the entries at some places. -/
def Trims (d d' : Disk) : Prop :=
  ∃ keep : Location → Bool, d' = { d with entries := d.entries.filter fun e => keep e.1 }

namespace Trims

variable {d d₁ d' : Disk} {p : Path}

theorem refl (d : Disk) : Trims d d := ⟨fun _ => true, by simp⟩

theorem trans (h : Trims d d₁) (h₁ : Trims d₁ d') : Trims d d' := by
  obtain ⟨keep, rfl⟩ := h
  obtain ⟨keep₁, rfl⟩ := h₁
  exact ⟨fun l => keep₁ l && keep l, by simp [List.filter_filter]⟩

theorem old (h : Trims d d') {P : Location} {n : Node} (hn : d'.get? P = some n) :
    d.get? P = some n := by
  obtain ⟨keep, rfl⟩ := h
  unfold get? at hn ⊢
  split
  · rename_i hP
    rwa [if_pos hP] at hn
  · rename_i hP
    rw [if_neg hP] at hn
    have hkept := valueAt_filter keep P d.entries
    rw [hn] at hkept
    split at hkept
    · exact hkept.symm
    · cases hkept

theorem locked (h : Trims d d') : d'.locked = d.locked := by
  obtain ⟨keep, rfl⟩ := h
  rfl

theorem nextId (h : Trims d d') : d'.nextId = d.nextId := by
  obtain ⟨keep, rfl⟩ := h
  rfl

theorem erase (d : Disk) (l : Location) : Trims d (d.erase l) := ⟨fun k => decide (k ≠ l), rfl⟩

theorem emptied (d : Disk) (m : Location) : Trims d (d.emptied m) :=
  ⟨fun k => !(m.isPrefixOf k) || decide (k = m), rfl⟩

theorem unlink (h : d.unlink p = .ok d') : Trims d d' := by
  obtain ⟨l, -, -, -, rfl⟩ := unlink_eq_ok h
  exact .erase d l

theorem removeDir (h : d.removeDir p = .ok d') : Trims d d' := by
  obtain ⟨l, -, -, -, -, -, rfl⟩ := removeDir_eq_ok h
  exact .erase d l

/-- Wherever a path leads and however far a removal comes, it only takes away. -/
theorem removeTree (d : Disk) (p : Path) : Trims d (d.removeTree p).2 := by
  unfold Disk.removeTree
  split
  · exact .refl d
  · exact .erase d _
  · rename_i l _
    have hemptied := Trims.emptied d l
    dsimp only
    split
    · rename_i hremoved
      exact hemptied.trans (.removeDir hremoved)
    · split <;> exact hemptied
  · exact .refl d

theorem removeArtifact (d : Disk) (p : Path) : Trims d (d.removeArtifact p).2 := by
  have htree := Trims.removeTree d p
  unfold Disk.removeArtifact
  split
  · exact .refl d
  · exact .refl d
  · split
    · rename_i hremoved
      rwa [hremoved] at htree
    · rename_i hremoved
      rw [hremoved] at htree
      split <;> exact htree
  · split
    · rename_i hremoved
      exact .unlink hremoved
    · split <;> exact .refl d

end Trims

/-! ## What removals shed -/

section

variable {d d' : Disk} {p : Path} {m : Location} (hclear : d.Clear m) (hp : p.Names m)
include hclear hp

theorem sheds_unlink (h : d.unlink p = .ok d') : Sheds d d' m := by
  obtain ⟨l, hl, halters⟩ := unlink_ok h
  obtain rfl := hp.locateEntry hclear hl
  exact .of_alters halters

theorem sheds_removeDir (h : d.removeDir p = .ok d') : Sheds d d' m := by
  obtain ⟨l, n, hl, hlast, hdot, -, rfl⟩ := removeDir_eq_ok h
  obtain rfl := hp.locateEntry hclear hl
  exact .of_alters (alters_erase (hp.ne_nil hlast hdot))

omit hclear hp in
theorem lstat_eq_ok {l : Location} {n : Node} (h : d.lstat p = .ok (l, n)) :
    d.locate .entry p = .ok l ∧ d.get? l = some n := by
  unfold lstat at h
  cases hl : d.locate .entry p with
  | error e => rw [hl] at h; cases h
  | ok k =>
    rw [hl] at h
    cases hn : d.get? k with
    | none => simp only [bind, Except.bind, hn] at h; cases h
    | some node =>
      simp only [bind, Except.bind, hn] at h
      cases h
      exact ⟨rfl, hn⟩

theorem lstat_names {l : Location} {n : Node} (h : d.lstat p = .ok (l, n)) :
    l = m ∧ d.get? m = some n := by
  obtain ⟨hl, hn⟩ := lstat_eq_ok h
  obtain rfl := hp.locate hclear hl
  exact ⟨rfl, hn⟩

theorem sheds_removeTree : Sheds d (d.removeTree p).2 m := by
  unfold removeTree
  split
  · exact .refl d m
  · rename_i l target hstat
    exact absurd (lstat_names hclear hp hstat).2 (hclear m target (List.prefix_refl m))
  · rename_i l hstat
    obtain ⟨rfl, -⟩ := lstat_names hclear hp hstat
    have hbelow := sheds_emptied d l
    dsimp only
    split
    · rename_i d' hmade
      exact hbelow.trans (sheds_removeDir (hbelow.clear hclear) hp hmade)
    · split <;> exact hbelow
  · exact .refl d m

theorem sheds_removeArtifact : Sheds d (d.removeArtifact p).2 m := by
  have htree := sheds_removeTree hclear hp
  unfold removeArtifact
  split
  · exact .refl d m
  · exact .refl d m
  · split
    · rename_i hremoved
      rwa [hremoved] at htree
    · rename_i hremoved
      rw [hremoved] at htree
      split <;> exact htree
  · split
    · rename_i hremoved
      exact sheds_unlink hclear hp hremoved
    · split <;> exact .refl d m

end

end Whittle.Disk
