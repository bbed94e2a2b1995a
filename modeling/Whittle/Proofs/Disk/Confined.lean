import Whittle.Proofs.Disk.Copy
import Whittle.Proofs.Disk.Removal
import Whittle.Proofs.Disk.Nested

/-!
# Changes that stay in a directory

`Confined`: outside of a directory nothing has changed but the file of an output, and directories that
were missing on the way to it or to the directory. Operations at places in the directory are confined
to it, as long as there are no links at them or above them.
-/

namespace Whittle.Disk

/-! ## Ways are decided by links -/

section

variable {d d' : Disk} (hlinks : SameLinks d d')
include hlinks

theorem SameLinks.aim (links : Nat) (here : Location) (names : List String) :
    d'.aim links here names = d.aim links here names := by
  induction links, here, names using aim_induct (d := d) with
  | nil links here => rw [aim_nil, aim_nil]
  | dot links here name rest hdot ih => rw [aim_dot hdot, aim_dot hdot, ih]
  | up links here rest ih => rw [aim_up, aim_up, ih]
  | into links here name rest hdot hup hlink ih =>
    rw [aim_into hdot hup hlink,
      aim_into hdot hup fun target e => hlink target ((hlinks _ _).mp e), ih]
  | along links here name rest target hdot hup hlink ih =>
    rw [aim_along hdot hup hlink, aim_along hdot hup ((hlinks _ _).mpr hlink), ih]
  | stuck here name rest target hdot hup hlink =>
    rw [aim_stuck hdot hup hlink, aim_stuck hdot hup ((hlinks _ _).mpr hlink)]

theorem SameLinks.placeOf {p : Path} (hp : p.isAbsolute = true) : d'.placeOf p = d.placeOf p := by
  have hstart (d : Disk) : d.startOf p.text = [] := if_pos hp
  rw [Disk.placeOf, Disk.placeOf, hstart, hstart, hlinks.aim]

theorem SameLinks.leadsBy {p : Path} {l : Location} : d'.LeadsBy p l ↔ d.LeadsBy p l := by
  simp only [LeadsBy, hlinks.aim]

end

theorem LeadsBy.of_parent {d : Disk} {p q : Path} {l : Location} (h : d.LeadsBy q l)
    (hq : p.parent = some q) : d.LeadsBy p l := by
  obtain ⟨names, hnames, hl⟩ := h
  exact ⟨names, hnames.trans (Path.names_parent hq), hl⟩

/-- What is on the way of a path that is written from a place is above the place. -/
theorem LeadsBy.above {d : Disk} {m l : Location} (hm : ∀ n ∈ m, IsName n) (hclear : d.Clear m)
    (h : d.LeadsBy (pathOf m) l) : l <+: m := by
  obtain ⟨names, hnames, hl⟩ := h
  rw [namesOf_pathOf hm] at hnames
  have hplace : lexical [] names = names := lexical_names (fun n hn => hm n (hnames.subset hn)) []
  rw [aim_lexical (fun hup => (hm _ (hnames.subset hup)).2.2.1 rfl) _
    (by rw [hplace]; exact hclear.above hnames), hplace] at hl
  exact Option.some.inj hl ▸ hnames

/-! ## Confined changes -/

/-- Nothing has changed outside of a directory, but for the file that a path leads to, and directories
that were missing on the way there or to the directory. -/
def Confined (root : Location) (dir output : Path) (d d' : Disk) : Prop :=
  ∀ o, ¬ root <+: o → d.placeOf output ≠ some o → d'.get? o = d.get? o ∨
    d.get? o = none ∧ d'.get? o = some .dir ∧ (o <+: root ∨ d.LeadsBy dir o ∨ d.LeadsBy output o)

namespace Confined

variable {root : Location} {dir output : Path} {d d₁ d' : Disk}

theorem refl (d : Disk) : Confined root dir output d d := fun _ _ _ => .inl rfl

theorem of_alters {m : Location} {n : Option Node} (hm : root <+: m) (h : Alters d d' m n) :
    Confined root dir output d d' := by
  refine fun o ho _ => .inl (h.other ?_)
  rintro rfl
  exact ho hm

theorem of_moves {s t : Location} (hs : root <+: s) (ht : root <+: t) (h : Moves d d' s t) :
    Confined root dir output d d' := fun o ho _ =>
  .inl (h.other o (fun hso => ho (hs.trans hso)) fun hto => ho (ht.trans hto))

theorem of_sheds (h : Sheds d d' root) : Confined root dir output d d' :=
  fun o ho _ => .inl (h.other o ho)

/-- Directories were made. -/
theorem of_makeDirs {p : Path} (hp : p.isAbsolute = true)
    (hway : ∀ o, ¬ root <+: o → d.LeadsBy p o → o <+: root ∨ d.LeadsBy dir o ∨ d.LeadsBy output o) :
    Confined root dir output d (d.makeDirs p).2 := by
  refine fun o ho _ => or_iff_not_imp_left.mpr fun hchanged => ?_
  obtain ⟨hnone, hmade⟩ := ((grows_makeDirs d p).get? o).resolve_left hchanged
  exact ⟨hnone, hmade, hway o ho (leadsBy_of_makeDirs (.refl d) hp hchanged)⟩

variable (houtput : output.isAbsolute = true)
include houtput

/-- What follows is confined in the same way as long as the links are the same. -/
theorem trans (hlinks : SameLinks d d₁) (h : Confined root dir output d d₁)
    (h₁ : Confined root dir output d₁ d') : Confined root dir output d d' := by
  intro o ho hgoal
  have hgoal₁ : d₁.placeOf output ≠ some o := by rwa [hlinks.placeOf houtput]
  rcases h₁ o ho hgoal₁ with e | ⟨hnone, hmade, hway⟩
  · rw [e]
    exact h o ho hgoal
  · rw [hlinks.leadsBy, hlinks.leadsBy] at hway
    rcases h o ho hgoal with e | ⟨-, hmade', -⟩
    · exact .inr ⟨e ▸ hnone, hmade, hway⟩
    · rw [hnone] at hmade'
      cases hmade'

/-- Something was copied to the output. -/
theorem of_copy {c : Path} (h : d.copy c output = .ok d') :
    SameLinks d d' ∧ Confined root dir output d d' := by
  obtain ⟨goal, hcopied⟩ := copied h
  refine ⟨hcopied.ways.link, fun o _ hgoal => .inl (hcopied.other o ?_)⟩
  rintro rfl
  exact hgoal (placeOf_eq houtput (.refl d) (locate_target_of_file hcopied.located))

end Confined

end Whittle.Disk
