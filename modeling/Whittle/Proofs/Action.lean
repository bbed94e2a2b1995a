import Mathlib.Data.Set.Insert
import Whittle.Workspace.Basic

/-!
# What actions keep to

`Keeps I R a Q`: from a state with `I`, the action `a` leaves a state with `I` that is in relation
`R` to the first, whether it answers or fails, and an answer has `Q`. The rules below go through the
parts of an action; what a run is asked is that every disk it meets is in a relation `T` to the one
before, as long as the tools keep to `T` as well (`Passes`).

`Paired T F a b Q` is said of two runs: from states in the relation `T F` the actions `a` and `b` fail
for the same reason, or answer with values in the relation `Q`, and the states they leave are in the
relation again. `F` is what both sides are known to have in common; it only grows.
-/

namespace Whittle

/-! ## Sequences of actions -/

section

variable {σ α β : Type} {a : ExceptT Fault (StateM σ) α} {f : α → ExceptT Fault (StateM σ) β}
  {s s' : σ}

theorem bind_of_ok {v : α} (h : a s = (.ok v, s')) : (a >>= f) s = f v s' := by
  have hbind : (a >>= f) s = ExceptT.bindCont f (a s).1 (a s).2 := rfl
  rw [hbind, h]
  rfl

theorem bind_of_error {e : Fault} (h : a s = (.error e, s')) :
    (a >>= f) s = (.error e, s') := by
  have hbind : (a >>= f) s = ExceptT.bindCont f (a s).1 (a s).2 := rfl
  rw [hbind, h]
  rfl

theorem bind_eq_ok {b : β} (h : (a >>= f) s = (.ok b, s')) :
    ∃ v s₁, a s = (.ok v, s₁) ∧ f v s₁ = (.ok b, s') := by
  cases ha : a s with
  | mk r s₁ =>
    cases r with
    | ok v => exact ⟨v, s₁, rfl, by rwa [bind_of_ok ha] at h⟩
    | error e =>
      rw [bind_of_error ha] at h
      cases h

theorem bind_cases {r : Except Fault β} (h : (a >>= f) s = (r, s')) :
    (∃ e, a s = (.error e, s') ∧ r = .error e) ∨ ∃ v s₁, a s = (.ok v, s₁) ∧ f v s₁ = (r, s') := by
  cases ha : a s with
  | mk first s₁ =>
    cases first with
    | ok v => exact .inr ⟨v, s₁, rfl, by rwa [bind_of_ok ha] at h⟩
    | error e =>
      rw [bind_of_error ha] at h
      cases h
      exact .inl ⟨e, rfl, rfl⟩

theorem pure_eq_ok {v w : α} (h : (pure v : ExceptT Fault (StateM σ) α) s = (.ok w, s')) :
    v = w ∧ s = s' := by
  cases h
  exact ⟨rfl, rfl⟩

end

/-! ## Single actions -/

namespace Action

variable {α : Type} {w w' : World}

theorem getDisk_apply (w : World) : getDisk w = (.ok w.disk, w) := rfl

theorem ask_apply (f : Disk → Except IoError α) (w : World) :
    ask f w = match f w.disk with
      | .ok v => (.ok v, w)
      | .error e => (.error (.io e), w) := by
  unfold ask
  rw [bind_of_ok (getDisk_apply w)]
  cases f w.disk <;> rfl

theorem ask_world {f : Disk → Except IoError α} {r : Except Fault α} (h : ask f w = (r, w')) :
    w' = w := by
  rw [ask_apply] at h
  split at h <;> cases h <;> rfl

theorem ask_eq_ok {f : Disk → Except IoError α} {v : α} (h : ask f w = (.ok v, w')) :
    f w.disk = .ok v ∧ w = w' := by
  rw [ask_apply] at h
  split at h
  · rename_i hv
    cases h
    exact ⟨hv, rfl⟩
  · cases h

theorem change_apply (f : Disk → Except IoError Disk) (w : World) :
    change f w = match f w.disk with
      | .ok d => (.ok (), { w with disk := d })
      | .error e => (.error (.io e), w) := by
  unfold change
  rw [bind_of_ok (getDisk_apply w)]
  cases f w.disk <;> rfl

theorem change_eq_ok {f : Disk → Except IoError Disk} (h : change f w = (.ok (), w')) :
    ∃ d, f w.disk = .ok d ∧ w' = { w with disk := d } := by
  rw [change_apply] at h
  split at h
  · rename_i d hd
    cases h
    exact ⟨d, hd, rfl⟩
  · cases h

theorem transact_apply (f : Disk → Except IoError Unit × Disk) (w : World) :
    transact f w = match (f w.disk).1 with
      | .ok () => (.ok (), { w with disk := (f w.disk).2 })
      | .error e => (.error (.io e), { w with disk := (f w.disk).2 }) := by
  unfold transact
  rw [bind_of_ok (getDisk_apply w)]
  show (setDisk (f w.disk).2 >>= _) w = _
  rw [bind_of_ok (show setDisk (f w.disk).2 w = (.ok (), { w with disk := (f w.disk).2 }) from rfl)]
  cases (f w.disk).1 <;> rfl

end Action

/-! ## Keeping to a relation -/

structure Keeps {σ α : Type} (I : σ → Prop) (R : σ → σ → Prop)
    (a : ExceptT Fault (StateM σ) α) (Q : α → Prop) : Prop where
  inv : ∀ s, I s → I (a s).2
  rel : ∀ s, I s → R s (a s).2
  post : ∀ s, I s → ∀ v, (a s).1 = .ok v → Q v

namespace Keeps

section

variable {σ α β : Type} {I : σ → Prop} {R : σ → σ → Prop}

theorem mono {a : ExceptT Fault (StateM σ) α} {P Q : α → Prop} (h : Keeps I R a P)
    (hPQ : ∀ v, P v → Q v) : Keeps I R a Q :=
  ⟨h.inv, h.rel, fun s hs v hv => hPQ v (h.post s hs v hv)⟩

theorem bind {a : ExceptT Fault (StateM σ) α} {f : α → ExceptT Fault (StateM σ) β} {P : α → Prop}
    {Q : β → Prop} (htrans : ∀ s s₁ s₂, R s s₁ → R s₁ s₂ → R s s₂) (ha : Keeps I R a P)
    (hf : ∀ v, P v → Keeps I R (f v) Q) : Keeps I R (a >>= f) Q := by
  have hstep : ∀ s, I s → I ((a >>= f) s).2 ∧ R s ((a >>= f) s).2 ∧
      ∀ v, ((a >>= f) s).1 = .ok v → Q v := by
    intro s hs
    have hinv := ha.inv s hs
    have hrel := ha.rel s hs
    have hpost := ha.post s hs
    cases h : a s with
    | mk r s₁ =>
      rw [h] at hinv hrel hpost
      cases r with
      | error e =>
        rw [bind_of_error h]
        exact ⟨hinv, hrel, fun v hv => nomatch hv⟩
      | ok v =>
        rw [bind_of_ok h]
        have hnext := hf v (hpost v rfl)
        exact ⟨hnext.inv s₁ hinv, htrans _ _ _ hrel (hnext.rel s₁ hinv), hnext.post s₁ hinv⟩
  exact ⟨fun s hs => (hstep s hs).1, fun s hs => (hstep s hs).2.1, fun s hs => (hstep s hs).2.2⟩

theorem pure (hrefl : ∀ s, R s s) {Q : α → Prop} {v : α} (h : Q v) :
    Keeps I R (Pure.pure v) Q where
  inv _ hs := hs
  rel s _ := hrefl s
  post _ _ w hw := by cases hw; exact h

theorem throw (hrefl : ∀ s, R s s) {Q : α → Prop} {e : Fault} :
    Keeps I R (MonadExcept.throw e : ExceptT Fault (StateM σ) α) Q where
  inv _ hs := hs
  rel s _ := hrefl s
  post _ _ _ hw := nomatch hw

end

end Keeps

/-! ## The calls of a run -/

/-- Every call was answered with a disk in relation to the one that the call found. -/
def Answered (host : Host) (T : Disk → Disk → Prop) : List Call → List Call → Prop
  | _, [] => True
  | before, call :: rest =>
    T call.disk (host.launch before call).disk ∧ Answered host T (before ++ [call]) rest

theorem Answered.append {host : Host} {T : Disk → Disk → Prop} {made more : List Call} :
    ∀ {before : List Call}, Answered host T before (made ++ more) →
      Answered host T before made ∧ Answered host T (before ++ made) more := by
  induction made with
  | nil =>
    intro before h
    exact ⟨trivial, by simpa using h⟩
  | cons c cs ih =>
    intro before h
    obtain ⟨hcs, hmore⟩ := ih h.2
    exact ⟨⟨h.1, hcs⟩, by simpa using hmore⟩

/-- One world comes from another by calls, and by changes that keep to `T` if the calls do. -/
def Passes (host : Host) (T : Disk → Disk → Prop) (w w' : World) : Prop :=
  ∃ made, w'.calls = w.calls ++ made ∧ (Answered host T w.calls made → T w.disk w'.disk)

namespace Passes

variable {host : Host} {T : Disk → Disk → Prop} {w w₁ w₂ : World}

theorem of_disk (hcalls : w₁.calls = w.calls) (h : T w.disk w₁.disk) : Passes host T w w₁ :=
  ⟨[], by simpa using hcalls, fun _ => h⟩

theorem trans (htrans : ∀ {d d₁ d₂}, T d d₁ → T d₁ d₂ → T d d₂) (h : Passes host T w w₁)
    (h₁ : Passes host T w₁ w₂) : Passes host T w w₂ := by
  obtain ⟨made, hcalls, hT⟩ := h
  obtain ⟨more, hcalls₁, hT₁⟩ := h₁
  refine ⟨made ++ more, by rw [hcalls₁, hcalls, List.append_assoc], fun hall => ?_⟩
  obtain ⟨hmade, hmore⟩ := hall.append
  exact htrans (hT hmade) (hT₁ (hcalls ▸ hmore))

theorem calls (h : Passes host T w w₁) : w.calls <+: w₁.calls := by
  obtain ⟨made, hcalls, -⟩ := h
  exact ⟨made, hcalls.symm⟩

/-- If all calls up to a later world are answered within `T`, so are those up to an earlier one. -/
theorem related (h : Passes host T w w₁) (h₁ : w₁.calls <+: w₂.calls)
    (hall : ∀ made, w₂.calls = w.calls ++ made → Answered host T w.calls made) :
    T w.disk w₁.disk := by
  obtain ⟨made, hcalls, hT⟩ := h
  obtain ⟨more, hcalls₁⟩ := h₁
  have := hall (made ++ more) (by rw [← hcalls₁, hcalls, List.append_assoc])
  exact hT this.append.1

end Passes

/-! ## Two runs side by side -/

/-- Two answers that are failures for the same reason, or values in a relation. -/
inductive Matches {ε α β : Type} (Q : α → β → Prop) : Except ε α → Except ε β → Prop
  | ok {v : α} {v' : β} (h : Q v v') : Matches Q (.ok v) (.ok v')
  | error (e : ε) : Matches Q (.error e) (.error e)

namespace Matches

variable {ε α β : Type} {Q Q' : α → β → Prop} {r : Except ε α} {r' : Except ε β}

theorem mono (h : Matches Q r r') (hQ : ∀ v v', Q v v' → Q' v v') : Matches Q' r r' := by
  cases h with
  | ok h => exact .ok (hQ _ _ h)
  | error e => exact .error e

theorem of_eq {s : Except ε α} (h : r = s) : Matches Eq r s := by
  subst h
  cases r with
  | ok v => exact .ok rfl
  | error e => exact .error e

theorem eq {s : Except ε α} (h : Matches Eq r s) : r = s := by
  cases h with
  | ok h => rw [h]
  | error => rfl

end Matches

/-- What is true of equal answers. -/
def Equal {φ α : Type} (Q : φ → α → Prop) (F : φ) (v v' : α) : Prop := v = v' ∧ Q F v

def Paired {σ α β : Type} (T : Set Location → σ → σ → Prop) (F : Set Location)
    (a : ExceptT Fault (StateM σ) α) (b : ExceptT Fault (StateM σ) β)
    (Q : Set Location → α → β → Prop) : Prop :=
  ∀ s s', T F s s' → ∃ F', F ⊆ F' ∧ T F' (a s).2 (b s').2 ∧ Matches (Q F') (a s).1 (b s').1

namespace Paired

variable {σ α β γ δ : Type} {T : Set Location → σ → σ → Prop} {F : Set Location}
  {a : ExceptT Fault (StateM σ) α} {b : ExceptT Fault (StateM σ) β}

theorem mono {Q Q' : Set Location → α → β → Prop} (h : Paired T F a b Q)
    (hQ : ∀ F' v v', F ⊆ F' → Q F' v v' → Q' F' v v') : Paired T F a b Q' := by
  intro s s' hs
  obtain ⟨F', hF, hs', hr⟩ := h s s' hs
  exact ⟨F', hF, hs', hr.mono fun v v' => hQ F' v v' hF⟩

theorem pure {Q : Set Location → α → β → Prop} {v : α} {v' : β} (h : Q F v v') :
    Paired T F (Pure.pure v) (Pure.pure v') Q :=
  fun _ _ hs => ⟨F, subset_rfl, hs, .ok h⟩

theorem throw {Q : Set Location → α → β → Prop} (e : Fault) :
    Paired T F (MonadExcept.throw e : ExceptT Fault (StateM σ) α)
      (MonadExcept.throw e : ExceptT Fault (StateM σ) β) Q :=
  fun _ _ hs => ⟨F, subset_rfl, hs, .error e⟩

theorem bind {f : α → ExceptT Fault (StateM σ) γ} {g : β → ExceptT Fault (StateM σ) δ}
    {P : Set Location → α → β → Prop} {Q : Set Location → γ → δ → Prop} (ha : Paired T F a b P)
    (hf : ∀ F' v v', F ⊆ F' → P F' v v' → Paired T F' (f v) (g v') Q) :
    Paired T F (a >>= f) (b >>= g) Q := by
  intro s s' hs
  obtain ⟨F₁, hF₁, hs₁, hr⟩ := ha s s' hs
  cases hra : a s with
  | mk r s₁ =>
    cases hrb : b s' with
    | mk r' s₁' =>
      rw [hra, hrb] at hs₁ hr
      cases hr with
      | ok h =>
        rw [bind_of_ok hra, bind_of_ok hrb]
        obtain ⟨F₂, hF₂, hs₂, hr₂⟩ := hf F₁ _ _ hF₁ h s₁ s₁' hs₁
        exact ⟨F₂, hF₁.trans hF₂, hs₂, hr₂⟩
      | error e =>
        rw [bind_of_error hra, bind_of_error hrb]
        exact ⟨F₁, hF₁, hs₁, .error e⟩

/-- Nothing is done after a failure. -/
theorem abort {f : α → ExceptT Fault (StateM σ) γ} {g : β → ExceptT Fault (StateM σ) δ}
    {Q : Set Location → γ → δ → Prop} (e : Fault) :
    Paired T F ((MonadExcept.throw e : ExceptT Fault (StateM σ) α) >>= f)
      ((MonadExcept.throw e : ExceptT Fault (StateM σ) β) >>= g) Q :=
  bind (P := fun _ _ _ => False) (throw e) fun _ _ _ _ h => h.elim

end Paired

end Whittle
