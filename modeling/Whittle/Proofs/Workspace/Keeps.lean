import Whittle.Proofs.Action
import Whittle.Proofs.Disk.Copy

/-!
# What a workspace lets happen to the disk

`Permits T free`: operations on the places with `free` keep to the relation `T`. Then so do all
operations on a workspace whose names lead to such places, with every part that may fail.
-/

namespace Whittle

open Disk

/-- The names of a path below a work directory are the names of its location there. -/
theorem Workspace.path_eq {l : Location} (hl : ∀ k ∈ l, IsName k) {name n : String}
    {ns : List String} (hname : name = String.intercalate "/" (n :: ns))
    (hn : ∀ k ∈ n :: ns, IsName k) {w : Workspace} (hw : w.root = pathOf l) :
    w.path name = pathOf (l ++ n :: ns) := by
  rw [Workspace.path, hw, hname]
  exact join_pathOf hl (hn n List.mem_cons_self)

/-- Operations on places with `free` lead to disks in relation `T`. -/
structure Permits (T : Disk → Disk → Prop) (free : Location → Prop) : Prop where
  refl : ∀ d, T d d
  trans : ∀ {d d₁ d₂}, T d d₁ → T d₁ d₂ → T d d₂
  unlink : ∀ {d d' m}, free m → (∀ n ∈ m, IsName n) → d.unlink (pathOf m) = .ok d' → T d d'
  write : ∀ {d d' m content x}, free m → (∀ n ∈ m, IsName n) →
    d.write (pathOf m) content x = .ok d' → T d d'
  copy : ∀ {d d' m source}, free m → (∀ n ∈ m, IsName n) →
    d.copy source (pathOf m) = .ok d' → T d d'
  makeDirs : ∀ {d m}, free m → (∀ n ∈ m, IsName n) → T d (d.makeDirs (pathOf m)).2
  rename : ∀ {d d' s t}, free s → free t → (∀ n ∈ s, IsName n) → (∀ n ∈ t, IsName n) → s ≠ t →
    d.rename (pathOf s) (pathOf t) = .ok d' → T d d'

/-- A file stays what it is as long as neither it nor anything above it is touched. -/
theorem permits_spares {l : Location} (hl : ∀ n ∈ l, IsName n) :
    Permits (Spares (pathOf l)) fun m => ¬ m <+: l where
  refl := .refl _
  trans := .trans
  unlink hml hm h := spares_unlink hl hm hml h
  write hml hm h := spares_write hl hm hml h
  copy hml hm h := spares_copy hl hm hml h
  makeDirs _ _ := spares_makeDirs hl _ _
  rename hsl htl hs ht hne h := spares_rename hl hs ht hsl htl hne h

/-! ### Places without links -/

/-- If there are no links in a directory, what holds of a disk as long as links stay where they are,
and as long as nothing is touched at or above some places, still holds when a run works elsewhere in
the directory. -/
theorem permits_invariant {I : Disk → Prop} {root : Location} {free : Location → Prop}
    (hfree : ∀ m, free m → root <+: m) (hstraight : ∀ d, I d → d.Straight root)
    (keep : ∀ d d', I d → SameLinks d d' →
      (∀ l, (∀ m, free m → ¬ m <+: l) → Holds l d d') → I d') :
    Permits (fun d d' => I d → I d') free where
  refl _ h := h
  trans h h₁ hd := h₁ (h hd)
  unlink {d d' m} hm hnames h hd := by
    obtain ⟨hlinks, halters⟩ := unlink_at ((hstraight d hd).below (hfree m hm)) hnames h
    exact keep d d' hd hlinks fun l hl => halters.holds (hl m hm)
  write {d d' m _ _} hm hnames h hd := by
    obtain ⟨hlinks, n, halters⟩ := write_at ((hstraight d hd).below (hfree m hm)) hnames h
    exact keep d d' hd hlinks fun l hl => halters.holds (hl m hm)
  copy {d d' m _} hm hnames h hd := by
    obtain ⟨hlinks, n, halters⟩ := copy_at ((hstraight d hd).below (hfree m hm)) hnames h
    exact keep d d' hd hlinks fun l hl => halters.holds (hl m hm)
  makeDirs {d m} _ _ hd :=
    keep d _ hd (grows_makeDirs d _).links fun l _ => (grows_makeDirs d _).holds l
  rename {d d' s t} hs ht hsnames htnames hne h hd := by
    have hs' := (hstraight d hd).below (hfree s hs)
    have ht' := (hstraight d hd).below (hfree t ht)
    obtain ⟨-, -, hmoves⟩ := moves_of_rename hsnames htnames hne h hs'.self ht'.self
    exact keep d d' hd (hmoves.sameLinks hs' ht') fun l hl => hmoves.holds (hl s hs) (hl t ht)

/-- The links are those of another disk. -/
theorem permits_links {d₀ : Disk} {root : Location} (hstraight : d₀.Straight root) :
    Permits (fun d d' => SameLinks d₀ d → SameLinks d₀ d') (root <+: ·) :=
  permits_invariant (fun _ hm => hm) (fun _ h => h.straight hstraight)
    fun _ _ h hlinks _ => h.trans hlinks

/-- A disk with the links of another one, and with a node at a place that can be reached. -/
structure Disk.Intact (d₀ : Disk) (l : Location) (n : Node) (d : Disk) : Prop where
  links : SameLinks d₀ d
  reached : Reached d l
  node : d.get? l = some n

theorem Disk.Intact.of_leaves {d₀ d d' : Disk} {l : Location} {n : Node} (h : Intact d₀ l n d)
    (hleaves : Leaves l d d') : Intact d₀ l n d' where
  links := h.links.trans hleaves.links
  reached := h.reached.of_holds hleaves.holds
  node := hleaves.holds l n (List.prefix_refl l) h.node

theorem permits_intact {d₀ : Disk} {root : Location} (hstraight : d₀.Straight root) (l : Location)
    (n : Node) : Permits (fun d d' => Intact d₀ l n d → Intact d₀ l n d')
      fun m => root <+: m ∧ ¬ m <+: l :=
  permits_invariant (fun _ hm => hm.1) (fun _ h => h.links.straight hstraight)
    fun _ _ h hlinks hold => h.of_leaves ⟨hlinks, hold l fun _ hm => hm.2⟩

/-- An action that keeps to `T` if the tools do. -/
abbrev Stays {α : Type} (host : Host) (T : Disk → Disk → Prop) (a : Action α) (Q : α → Prop) :
    Prop :=
  Keeps (fun _ => True) (Passes host T) a Q

/-- A workspace in which nothing is new but artifacts in the ledger, at places with `free`. -/
structure Enters (free : Location → Prop) (w w' : Workspace) : Prop where
  rest : w' = { w with ledger := w'.ledger }
  new : ∀ a ∈ w'.ledger.artifacts, a ∈ w.ledger.artifacts ∨
    ∃ m, free m ∧ (∀ n ∈ m, IsName n) ∧ a.path = pathOf m

namespace Enters

variable {free : Location → Prop}

theorem refl (w : Workspace) : Enters free w w := ⟨rfl, fun _ ha => .inl ha⟩

theorem trans {w w₁ w₂ : Workspace} (h : Enters free w w₁) (h₁ : Enters free w₁ w₂) :
    Enters free w w₂ where
  rest := by
    have e := h₁.rest
    rw [h.rest] at e
    exact e
  new a ha := by
    rcases h₁.new a ha with ha | hnew
    · exact h.new a ha
    · exact .inr hnew

theorem register {m : Location} (hfree : free m) (hm : ∀ n ∈ m, IsName n) (owner : Stage)
    (w : Workspace) :
    Enters free w { w with ledger := w.ledger.register (pathOf m) owner } where
  rest := rfl
  new a ha := by
    have ha : a ∈ (w.ledger.register (pathOf m) owner).artifacts := ha
    unfold Ledger.register at ha
    split at ha
    · exact .inl ha
    · rcases List.mem_append.mp ha with ha | ha
      · exact .inl ha
      · rw [List.mem_singleton.mp ha]
        exact .inr ⟨m, hfree, hm, rfl⟩

end Enters

/-- The same for an action on a workspace with a given directory. -/
abbrev StaysIn {α : Type} (host : Host) (T : Disk → Disk → Prop) (free : Location → Prop)
    (root : Path) (a : Work α) (Q : α → Prop) : Prop :=
  Keeps (fun s : Site => s.workspace.root = root)
    (fun s s' : Site => Passes host T s.world s'.world ∧ Enters free s.workspace s'.workspace) a Q

theorem stays_of_disk {α : Type} {host : Host} {T : Disk → Disk → Prop} {a : Action α}
    (h : ∀ w, (a w).2.calls = w.calls ∧ T w.disk (a w).2.disk) : Stays host T a fun _ => True :=
  ⟨fun _ _ => trivial, fun w _ => .of_disk (h w).1 (h w).2, fun _ _ _ _ => trivial⟩

section

variable {α : Type} {host : Host} {T : Disk → Disk → Prop} {free : Location → Prop} {root : Path}
  {a : Work α} {Q : α → Prop} (h : StaysIn host T free root a Q) {s s' : Site}
  (hs : s.workspace.root = root) {r : Except Fault α} (ha : a s = (r, s'))
include h hs ha

theorem Keeps.of_run :
    s'.workspace.root = root ∧ Passes host T s.world s'.world ∧ ∀ v, r = .ok v → Q v := by
  have hinv := h.inv s hs
  have hrel := (h.rel s hs).1
  have hpost := h.post s hs
  rw [ha] at hinv hrel hpost
  exact ⟨hinv, hrel, hpost⟩

theorem Keeps.enters : Enters free s.workspace s'.workspace := by
  have hrel := (h.rel s hs).2
  rwa [ha] at hrel

end

namespace Permits

variable {T : Disk → Disk → Prop} {free : Location → Prop} (hp : Permits T free) {host : Host}
  {root : Path} {α β : Type}

section

include hp

theorem passes_refl (w : World) : Passes host T w w := .of_disk rfl (hp.refl _)

theorem passes_trans {w w₁ w₂ : World} (h : Passes host T w w₁) (h₁ : Passes host T w₁ w₂) :
    Passes host T w w₂ := h.trans hp.trans h₁

theorem seqIn {a : Work α} {f : α → Work β} {P : α → Prop} {Q : β → Prop}
    (ha : StaysIn host T free root a P) (hf : ∀ v, P v → StaysIn host T free root (f v) Q) :
    StaysIn host T free root (a >>= f) Q :=
  ha.bind (fun _ _ _ h h₁ => ⟨hp.passes_trans h.1 h₁.1, h.2.trans h₁.2⟩) hf

end

theorem lift {a : Action α} {Q : α → Prop} (h : Stays host T a Q) :
    StaysIn host T free root (liftM a) Q where
  inv _ hs := hs
  rel s _ := ⟨h.rel s.world trivial, .refl s.workspace⟩
  post s _ v hv := h.post s.world trivial v hv

end Permits

end Whittle
