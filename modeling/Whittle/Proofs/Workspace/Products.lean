import Whittle.Proofs.Workspace.Keeps

/-!
# What ends up in a workspace

A product that was copied or moved into the work directory reads as what it was made from, unless it
reads as nothing at all. None of these operations calls a tool.
-/

namespace Whittle

open Disk

/-! ## Answers of parts -/

section

variable {α : Type} {s s' : Site}

theorem lift_eq_ok {a : Action α} {v : α} (h : (liftM a : Work α) s = (.ok v, s')) :
    ∃ w, a s.world = (.ok v, w) ∧ s' = { s with world := w } := by
  have h : ((a s.world).1, { s with world := (a s.world).2 }) = ((.ok v : Except Fault α), s') := h
  obtain ⟨hv, hs⟩ := Prod.mk.inj h
  exact ⟨(a s.world).2, Prod.ext hv rfl, hs.symm⟩

theorem workspace_eq_ok {w : Workspace} (h : Work.workspace s = (.ok w, s')) :
    s.workspace = w ∧ s = s' := by
  cases h
  exact ⟨rfl, rfl⟩

/-- The second site comes from the first without a call, in the same directory. -/
structure SameCalls (s s' : Site) : Prop where
  calls : s'.world.calls = s.world.calls
  root : s'.workspace.root = s.workspace.root

theorem SameCalls.trans {s₁ : Site} (h : SameCalls s s₁) (h₁ : SameCalls s₁ s') :
    SameCalls s s' :=
  ⟨h₁.calls.trans h.calls, h₁.root.trans h.root⟩

theorem register_eq_ok {p : Path} {owner : Stage} {new : Bool}
    (h : Workspace.register p owner s = (.ok new, s')) :
    SameCalls s s' ∧ s'.world = s.world := by
  cases h
  exact ⟨⟨rfl, rfl⟩, rfl⟩

end

/-! ## No calls -/

/-- An action that calls no tool, whatever becomes of it. -/
abbrev Quiet {α : Type} (a : Work α) : Prop := Keeps (fun _ => True) SameCalls a fun _ => True

namespace Quiet

variable {α β : Type}

theorem bind {a : Work α} {f : α → Work β} (ha : Quiet a) (hf : ∀ v, Quiet (f v)) :
    Quiet (a >>= f) :=
  Keeps.bind (fun _ _ _ => SameCalls.trans) ha fun v _ => hf v

theorem pure (v : α) : Quiet (Pure.pure v) := Keeps.pure (fun _ => ⟨rfl, rfl⟩) trivial

theorem abort (e : Fault) (f : α → Work β) : Quiet ((throw e : Work α) >>= f) :=
  Keeps.bind (P := fun _ => False) (fun _ _ _ => SameCalls.trans)
    (Keeps.throw fun _ => ⟨rfl, rfl⟩) fun _ h => h.elim

theorem workspace : Quiet Work.workspace :=
  ⟨fun _ _ => trivial, fun _ _ => ⟨rfl, rfl⟩, fun _ _ _ _ => trivial⟩

theorem lift {a : Action α} (h : ∀ w, (a w).2.calls = w.calls) : Quiet (liftM a) :=
  ⟨fun _ _ => trivial, fun s _ => ⟨h s.world, rfl⟩, fun _ _ _ _ => trivial⟩

theorem of_run {a : Work α} (h : Quiet a) {s s' : Site} {r : Except Fault α}
    (hrun : a s = (r, s')) : SameCalls s s' := by
  have hrel := h.rel s trivial
  rwa [hrun] at hrel

theorem change_calls (f : Disk → Except IoError Disk) (w : World) :
    (Action.change f w).2.calls = w.calls := by
  rw [Action.change_apply]
  split <;> rfl

theorem attempt_calls (f : Disk → Except IoError Disk) (w : World) :
    (Action.attempt (Action.change f) w).2.calls = w.calls := change_calls f w

theorem register (p : Path) (owner : Stage) : Quiet (Workspace.register p owner) :=
  ⟨fun _ _ => trivial, fun _ _ => ⟨rfl, rfl⟩, fun _ _ _ _ => trivial⟩

theorem copyIn (source : Path) (name : String) (owner : Stage) :
    Quiet (Workspace.copyIn source name owner) := by
  refine workspace.bind fun w => ?_
  refine (register _ owner).bind fun _ => ?_
  exact (lift (change_calls _)).bind fun _ => pure _

theorem moveIn (source : Path) (name : String) (owner : Stage) :
    Quiet (Workspace.moveIn source name owner) := by
  refine workspace.bind fun w => ?_
  refine (register _ owner).bind fun _ => ?_
  refine (lift (change_calls _)).bind fun _ => ?_
  refine (lift (attempt_calls _)).bind fun r => ?_
  split
  · exact pure _
  · refine (lift (change_calls _)).bind fun _ => ?_
    exact (lift (attempt_calls _)).bind fun _ => pure _

end Quiet

namespace Disk

/-- What is there after something was removed was there before. -/
theorem read_of_unlink {d d' : Disk} (hd : d.Linkless) {p : Path} (h : d.unlink p = .ok d')
    {m : Location} (hm : ∀ n ∈ m, IsName n) {b : ByteArray} (hb : d'.read (pathOf m) = .ok b) :
    d.read (pathOf m) = .ok b := by
  obtain ⟨k, -, halters⟩ := unlink_ok h
  refine read_of_holds ((halters.linkless hd (by simp)).clear m) hm (fun P n _ hn => ?_) hb
  rw [halters.get?] at hn
  split at hn
  · cases hn
  · exact hn

end Disk

theorem removeStale_eq_ok {s s' : Site} {p : Path} (h : Workspace.removeStale p s = (.ok (), s')) :
    SameCalls s s' ∧
      (s'.world.disk = s.world.disk ∨ s.world.disk.unlink p = .ok s'.world.disk) := by
  obtain ⟨w, hw, rfl⟩ := lift_eq_ok h
  obtain ⟨d, hd, rfl⟩ := Action.change_eq_ok hw
  refine ⟨⟨rfl, rfl⟩, ?_⟩
  split at hd
  · rename_i hunlink
    cases hd
    exact .inr hunlink
  · split at hd
    · cases hd
      exact .inl rfl
    · cases hd

/-- After a stale file was removed, what is there was there before. -/
theorem removeStale_leaves {s s' : Site} (hd : s.world.disk.Linkless) {p : Path}
    (h : Workspace.removeStale p s = (.ok (), s')) :
    s'.world.disk.Linkless ∧ ∀ m, (∀ n ∈ m, IsName n) → ∀ b,
      s'.world.disk.read (pathOf m) = .ok b → s.world.disk.read (pathOf m) = .ok b := by
  rcases (removeStale_eq_ok h).2 with e | hunlink
  · rw [e]
    exact ⟨hd, fun _ _ _ hb => hb⟩
  · obtain ⟨_, -, halters⟩ := unlink_ok hunlink
    exact ⟨halters.linkless hd (by simp), fun m hm b hb => read_of_unlink hd hunlink hm hb⟩

/-! ## Products -/

theorem prepareOutput_eq_ok {s s' : Site} {name : String} {owner : Stage} {p : Path}
    (h : Workspace.prepareOutput name owner s = (.ok p, s')) :
    SameCalls s s' ∧ p = s.workspace.path name := by
  obtain ⟨w, s₁, hw, h⟩ := bind_eq_ok h
  obtain ⟨rfl, rfl⟩ := workspace_eq_ok hw
  obtain ⟨new, s₂, hregister, h⟩ := bind_eq_ok h
  obtain ⟨_, s₃, hstale, h⟩ := bind_eq_ok h
  obtain ⟨rfl, rfl⟩ := pure_eq_ok h
  exact ⟨(register_eq_ok hregister).1.trans (removeStale_eq_ok hstale).1, rfl⟩

theorem createDir_eq_ok {s s' : Site} {name : String} {owner : Stage} {p : Path}
    (h : Workspace.createDir name owner s = (.ok p, s')) : SameCalls s s' := by
  have hmake {s s' : Site} {p : Path} {u : Unit}
      (h : (liftM (Action.transact (·.makeDirs p)) : Work Unit) s = (.ok u, s')) :
      SameCalls s s' := by
    obtain ⟨w, hw, rfl⟩ := lift_eq_ok h
    rw [Action.transact_apply] at hw
    split at hw
    · cases hw
      exact ⟨rfl, rfl⟩
    · cases hw
  obtain ⟨w, s₁, hw, h⟩ := bind_eq_ok h
  obtain ⟨rfl, rfl⟩ := workspace_eq_ok hw
  obtain ⟨d, s₂, hd, h⟩ := bind_eq_ok h
  obtain ⟨w, hw, rfl⟩ := lift_eq_ok hd
  cases hw
  split at h
  · obtain ⟨new, s₃, hregister, h⟩ := bind_eq_ok h
    obtain ⟨_, s₄, hmade, h⟩ := bind_eq_ok h
    obtain ⟨rfl, rfl⟩ := pure_eq_ok h
    exact (register_eq_ok hregister).1.trans (hmake hmade)
  · obtain ⟨_, s₄, hmade, h⟩ := bind_eq_ok h
    obtain ⟨rfl, rfl⟩ := pure_eq_ok h
    exact hmake hmade

section

variable {s s' : Site} (hd : s.world.disk.Linkless) {name : String} {owner : Stage} {p : Path}
  {m t : Location} (hm : ∀ n ∈ m, IsName n) (ht : ∀ n ∈ t, IsName n) (hne : m ≠ t)
  (hpath : s.workspace.path name = pathOf t)
include hd hm ht hne hpath

theorem copyIn_eq_ok (h : Workspace.copyIn (pathOf m) name owner s = (.ok p, s')) :
    SameCalls s s' ∧ p = pathOf t ∧
      ∀ b, s'.world.disk.read (pathOf t) = .ok b →
        s.world.disk.read (pathOf m) = .ok b ∨ b = ByteArray.empty := by
  obtain ⟨w, s₁, hw, h⟩ := bind_eq_ok h
  obtain ⟨rfl, rfl⟩ := workspace_eq_ok hw
  rw [hpath] at h
  obtain ⟨new, s₂, hregister, h⟩ := bind_eq_ok h
  obtain ⟨hsame, hworld⟩ := register_eq_ok hregister
  obtain ⟨_, s₃, hcopy, h⟩ := bind_eq_ok h
  obtain ⟨rfl, rfl⟩ := pure_eq_ok h
  obtain ⟨w, hw, rfl⟩ := lift_eq_ok hcopy
  obtain ⟨d, hcopied, rfl⟩ := Action.change_eq_ok hw
  split at hcopied
  · rename_i d' hd'
    cases hcopied
    rw [hworld] at hd'
    exact ⟨hsame.trans ⟨rfl, rfl⟩, rfl, fun b hb => read_copy hd hm ht hne hd' hb⟩
  · cases hcopied

theorem moveIn_eq_ok (h : Workspace.moveIn (pathOf m) name owner s = (.ok p, s')) :
    SameCalls s s' ∧ p = pathOf t ∧
      ∀ b, s'.world.disk.read (pathOf t) = .ok b →
        s.world.disk.read (pathOf m) = .ok b ∨ b = ByteArray.empty := by
  obtain ⟨w, s₁, hw, h⟩ := bind_eq_ok h
  obtain ⟨rfl, rfl⟩ := workspace_eq_ok hw
  rw [hpath] at h
  obtain ⟨new, s₂, hregister, h⟩ := bind_eq_ok h
  obtain ⟨hsame, hworld⟩ := register_eq_ok hregister
  obtain ⟨_, s₃, hstale, h⟩ := bind_eq_ok h
  have hsame := hsame.trans (removeStale_eq_ok hstale).1
  -- the source is what it was, whether or not something was removed at the target
  obtain ⟨hd₃, hsource⟩ := removeStale_leaves (s := s₂) (hworld ▸ hd) hstale
  rw [hworld] at hsource
  have hsource := hsource m hm
  obtain ⟨r, s₄, hrename, h⟩ := bind_eq_ok h
  obtain ⟨w, hw, rfl⟩ := lift_eq_ok hrename
  rw [Action.attempt, Action.change_apply] at hw
  cases hmoved : s₃.world.disk.rename (pathOf m) (pathOf t) with
  | ok d' =>
    rw [hmoved] at hw
    cases hw
    obtain ⟨rfl, rfl⟩ := pure_eq_ok h
    exact ⟨hsame.trans ⟨rfl, rfl⟩, rfl,
      fun b hb => .inl (hsource b (read_rename hm ht hne hmoved hd₃ hb))⟩
  | error e =>
    rw [hmoved] at hw
    cases hw
    obtain ⟨_, s₅, hcopy, h⟩ := bind_eq_ok h
    obtain ⟨w, hw, rfl⟩ := lift_eq_ok hcopy
    obtain ⟨d', hcopied, rfl⟩ := Action.change_eq_ok hw
    obtain ⟨r', s₆, hunlink, h⟩ := bind_eq_ok h
    obtain ⟨w, hw, rfl⟩ := lift_eq_ok hunlink
    obtain ⟨rfl, rfl⟩ := pure_eq_ok h
    have hcopied' {b : ByteArray} (hb : d'.read (pathOf t) = .ok b) :
        s.world.disk.read (pathOf m) = .ok b ∨ b = ByteArray.empty :=
      (read_copy hd₃ hm ht hne hcopied hb).imp_left (hsource b)
    obtain ⟨n, hlink, halters, -⟩ := copy_ok hd₃ ht hcopied
    rw [Action.attempt, Action.change_apply] at hw
    cases hgone : d'.unlink (pathOf m) with
    | ok d'' =>
      rw [hgone] at hw
      cases hw
      exact ⟨hsame.trans ⟨rfl, rfl⟩, rfl,
        fun b hb => hcopied' (read_of_unlink (halters.linkless hd₃ hlink) hgone ht hb)⟩
    | error e' =>
      rw [hgone] at hw
      cases hw
      exact ⟨hsame.trans ⟨rfl, rfl⟩, rfl, fun b hb => hcopied' hb⟩

end

end Whittle
