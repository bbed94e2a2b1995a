import Mathlib.Logic.Relation
import Whittle.Proofs.Tool.Calls
import Whittle.Proofs.Workspace.Keeps

/-!
# The trail of a run in its work directory

What a run does with its workspace is a row of steps (`Step`): it enters a path into the ledger, works
on files whose paths are in the ledger, makes a directory that is in the ledger or was there, and
calls a tool when all places at which the tool leaves something are in the ledger. What every step
keeps is kept by the row, the `Trail`; the rules below find the trail of an action in its parts.
-/

namespace Whittle

open Disk

/-- What may be put into a work directory: files, directories, and what is left there by the call of
a tool. -/
structure Charter where
  product : Location → Prop
  directory : Location → Prop
  call : Path → List String → List Location → Prop

/-- The site with a path in the ledger. -/
def Site.register (s : Site) (p : Path) (owner : Stage) : Site :=
  { s with workspace := { s.workspace with ledger := s.workspace.ledger.register p owner } }

/-- The path of a product is in the ledger. -/
structure Workspace.Lists (k : Workspace) (c : Charter) (m : Location) : Prop where
  product : c.product m
  names : ∀ n ∈ m, IsName n
  listed : k.ledger.contains (pathOf m) = true

/-! ## Steps -/

section

variable (host : Host) (c : Charter)

/-- One operation on the disk. -/
inductive Operates (k : Workspace) (d : Disk) : Disk → Prop
  | unlink {m : Location} {d' : Disk} (hm : k.Lists c m) (h : d.unlink (pathOf m) = .ok d') :
    Operates k d d'
  | write {m : Location} {content : ByteArray} {x : Bool} {d' : Disk} (hm : k.Lists c m)
    (h : d.write (pathOf m) content x = .ok d') : Operates k d d'
  | copy {m : Location} {source : Path} {d' : Disk} (hm : k.Lists c m)
    (h : d.copy source (pathOf m) = .ok d') : Operates k d d'
  | rename {m t : Location} {d' : Disk} (hm : k.Lists c m) (ht : k.Lists c t) (hne : m ≠ t)
    (h : d.rename (pathOf m) (pathOf t) = .ok d') : Operates k d d'
  | makeDirs {m : Location} (hm : c.directory m) (hnames : ∀ n ∈ m, IsName n)
    (hlisted : k.ledger.contains (pathOf m) = true ∨ d.pathExists (pathOf m) = true) :
    Operates k d (d.makeDirs (pathOf m)).2

/-- One step in the world, with the ledger as it is. -/
inductive Move (k : Workspace) (w : World) : World → Prop
  | idle {w' : World} (hdisk : w'.disk = w.disk) (hcalls : w'.calls = w.calls) : Move k w w'
  | operate {d : Disk} (h : Operates c k w.disk d) : Move k w { w with disk := d }
  | call {program : Path} {argv : List String} {cwd : Path} {products : List Location}
    (hcall : c.call program argv products) (hlisted : ∀ m ∈ products, k.Lists c m) :
    Move k w (w.after host ⟨program, argv, cwd, w.disk⟩)

inductive Step (s : Site) : Site → Prop
  | move {w : World} (h : Move host c s.workspace s.world w) : Step s { s with world := w }
  /-- The path of a file is registered. -/
  | enter {m : Location} (owner : Stage) (hm : c.product m) (hnames : ∀ n ∈ m, IsName n) :
    Step s (s.register (pathOf m) owner)
  /-- The path of a directory that is not there is registered. -/
  | create {m : Location} (owner : Stage) (hm : c.directory m) (hnames : ∀ n ∈ m, IsName n)
    (hnew : s.world.disk.pathExists (pathOf m) = false) :
    Step s (s.register (pathOf m) owner)

abbrev Trail : Site → Site → Prop := Relation.ReflTransGen (Step host c)

end

/-! ## What is listed -/

namespace Ledger

theorem contains_register (l : Ledger) (p : Path) (owner : Stage) :
    (l.register p owner).contains p = true := by
  unfold register
  split
  · assumption
  · simp [contains, Path.same]

theorem contains_register_of {l : Ledger} {p : Path} (h : l.contains p = true) (q : Path)
    (owner : Stage) : (l.register q owner).contains p = true := by
  unfold register
  split
  · exact h
  · unfold contains at h ⊢
    rw [List.any_append, h, Bool.true_or]

end Ledger

/-- A site in a directory, with products that are in the ledger. -/
structure Site.Prepared (c : Charter) (l : Location) (ms : List Location) (s : Site) : Prop where
  root : s.workspace.root = pathOf l
  lists : ∀ m ∈ ms, s.workspace.Lists c m

section

variable {host : Host} {c : Charter} {s s' : Site} {l m : Location} {ms : List Location}

theorem Workspace.Lists.of_step {p : Path} {owner : Stage} {k : Workspace} (h : k.Lists c m) :
    Lists { k with ledger := k.ledger.register p owner } c m :=
  ⟨h.product, h.names, Ledger.contains_register_of h.listed p owner⟩

theorem Site.Prepared.of_step (h : s.Prepared c l ms) (hstep : Step host c s s') :
    s'.Prepared c l ms := by
  cases hstep with
  | move => exact ⟨h.root, h.lists⟩
  | enter => exact ⟨h.root, fun m hm => (h.lists m hm).of_step⟩
  | create => exact ⟨h.root, fun m hm => (h.lists m hm).of_step⟩

/-- What is in the ledger stays there. -/
theorem Site.Prepared.of_trail (h : s.Prepared c l ms) (htrail : Trail host c s s') :
    s'.Prepared c l ms := by
  induction htrail with
  | refl => exact h
  | tail _ hstep ih => exact ih.of_step hstep

/-- The calls of a trail come behind those before it. -/
theorem Step.calls (h : Step host c s s') : s.world.calls <+: s'.world.calls := by
  cases h with
  | move h =>
    cases h with
    | idle _ hcalls => exact hcalls ▸ List.prefix_refl _
    | operate => exact List.prefix_refl _
    | call => exact List.prefix_append _ _
  | enter => exact List.prefix_refl _
  | create => exact List.prefix_refl _

theorem Trail.calls (h : Trail host c s s') : s.world.calls <+: s'.world.calls := by
  induction h with
  | refl => exact List.prefix_refl _
  | tail _ hstep ih => exact ih.trans hstep.calls

/-- Of the workspace a trail changes the ledger only. -/
theorem Step.rest (h : Step host c s s') :
    s'.workspace = { s.workspace with ledger := s'.workspace.ledger } := by
  cases h <;> rfl

theorem Trail.rest (h : Trail host c s s') :
    s'.workspace = { s.workspace with ledger := s'.workspace.ledger } := by
  induction h with
  | refl => rfl
  | tail _ hstep ih => rw [hstep.rest, ih]

end

/-! ## Disks and ledgers -/

section

variable {host : Host} {c : Charter} {T : Disk → Disk → Prop} {free : Location → Prop}
  (hp : Permits T free) (hproduct : ∀ m, c.product m → free m)
  (hdirectory : ∀ m, c.directory m → free m)
include hp hproduct hdirectory

theorem Operates.permitted {k : Workspace} {d d' : Disk} (h : Operates c k d d') : T d d' := by
  cases h with
  | unlink hm h => exact hp.unlink (hproduct _ hm.product) hm.names h
  | write hm h => exact hp.write (hproduct _ hm.product) hm.names h
  | copy hm h => exact hp.copy (hproduct _ hm.product) hm.names h
  | rename hm ht hne h =>
    exact hp.rename (hproduct _ hm.product) (hproduct _ ht.product) hm.names ht.names hne h
  | makeDirs hm hnames => exact hp.makeDirs (hdirectory _ hm) hnames

theorem Step.passes {s s' : Site} (h : Step host c s s') :
    Passes host T s.world s'.world ∧ Enters free s.workspace s'.workspace := by
  cases h with
  | move h =>
    refine ⟨?_, .refl _⟩
    cases h with
    | idle hdisk hcalls => exact .of_disk hcalls (hdisk ▸ hp.refl _)
    | operate h => exact .of_disk rfl (h.permitted hp hproduct hdirectory)
    | call => exact ⟨[_], rfl, fun h => h.1⟩
  | enter owner hm hnames => exact ⟨hp.passes_refl _, .register (hproduct _ hm) hnames owner _⟩
  | create owner hm hnames => exact ⟨hp.passes_refl _, .register (hdirectory _ hm) hnames owner _⟩

/-- Along a trail disks keep to what is permitted, if the tools do, and the ledger gets paths of
permitted places. -/
theorem Trail.passes {s s' : Site} (h : Trail host c s s') :
    Passes host T s.world s'.world ∧ Enters free s.workspace s'.workspace := by
  induction h with
  | refl => exact ⟨hp.passes_refl _, .refl _⟩
  | tail _ hstep ih =>
    have hlast := hstep.passes hp hproduct hdirectory
    exact ⟨hp.passes_trans ih.1 hlast.1, ih.2.trans hlast.2⟩

end

/-! ## Rules for actions on the world -/

/-- An action that takes steps in the world only, once these products are in the ledger. -/
def Abides {α : Type} (host : Host) (c : Charter) (ms : List Location) (a : Action α)
    (Q : α → Prop) : Prop :=
  ∀ k : Workspace, (∀ m ∈ ms, k.Lists c m) →
    Keeps (fun _ => True) (Relation.ReflTransGen (Move host c k)) a Q

namespace Abides

variable {host : Host} {c : Charter} {ms : List Location} {α β : Type} {a : Action α}
  {P Q : α → Prop}

theorem seq {f : α → Action β} {Q : β → Prop} (ha : Abides host c ms a P)
    (hf : ∀ v, P v → Abides host c ms (f v) Q) : Abides host c ms (a >>= f) Q := fun k hk =>
  (ha k hk).bind (fun _ _ _ => .trans) fun v hv => hf v hv k hk

theorem ret {v : α} (h : Q v) : Abides host c ms (pure v) Q := fun _ _ =>
  Keeps.pure (fun _ => .refl) h

theorem fail {e : Fault} : Abides host c ms (throw e : Action α) Q := fun _ _ =>
  Keeps.throw fun _ => .refl

theorem abort {e : Fault} {f : α → Action β} {Q : β → Prop} :
    Abides host c ms ((throw e : Action α) >>= f) Q :=
  seq (P := fun _ => False) fail fun _ h => h.elim

theorem mono (h : Abides host c ms a P) (hPQ : ∀ v, P v → Q v) : Abides host c ms a Q :=
  fun k hk => (h k hk).mono hPQ

theorem of_idle (h : ∀ w, (a w).2.disk = w.disk ∧ (a w).2.calls = w.calls) :
    Abides host c ms a fun _ => True := fun _ _ =>
  ⟨fun _ _ => trivial, fun w _ => .single (.idle (h w).1 (h w).2), fun _ _ _ _ => trivial⟩

theorem getDisk : Abides host c ms Action.getDisk fun _ => True := of_idle fun _ => ⟨rfl, rfl⟩

theorem report (severity : Severity) (text : String) :
    Abides host c ms (Action.report severity text) fun _ => True := of_idle fun _ => ⟨rfl, rfl⟩

theorem warn (text : String) : Abides host c ms (Action.warn text) fun _ => True :=
  report .warning text

theorem freshId : Abides host c ms (Action.freshId host) fun _ => True := of_idle fun _ => ⟨rfl, rfl⟩

theorem ask (f : Disk → Except IoError α) : Abides host c ms (Action.ask f) fun _ => True := by
  refine of_idle fun w => ?_
  rw [Action.ask_apply]
  split <;> exact ⟨rfl, rfl⟩

theorem attempt (h : Abides host c ms a Q) :
    Abides host c ms (Action.attempt a) fun r => ∀ v, r = .ok v → Q v := fun k hk =>
  { inv := fun _ _ => trivial
    rel := fun w hw => (h k hk).rel w hw
    post := fun w hw r hr v hv => by
      cases hr
      exact (h k hk).post w hw v hv }

theorem change {f : Disk → Except IoError Disk}
    (hf : ∀ k : Workspace, (∀ m ∈ ms, k.Lists c m) → ∀ d d', f d = .ok d' →
      d' = d ∨ Operates c k d d') : Abides host c ms (Action.change f) fun _ => True := fun k hk =>
  { inv := fun _ _ => trivial
    rel := fun w _ => by
      rw [Action.change_apply]
      split
      · rename_i d hd
        rcases hf k hk _ _ hd with rfl | h
        · exact .refl
        · exact .single (.operate h)
      · exact .refl
    post := fun _ _ _ _ => trivial }

theorem launch {program : Path} {argv : List String} {products : List Location}
    (hcall : c.call program argv products) (hlisted : ∀ m ∈ products, m ∈ ms) (cwd : Path) :
    Abides host c ms (Action.launch host program argv cwd) fun _ => True := fun _ hk =>
  { inv := fun _ _ => trivial
    rel := fun _ _ => .single (.call hcall fun m hm => hk m (hlisted m hm))
    post := fun _ _ _ _ => trivial }

variable {m : Location} (hm : m ∈ ms)
include hm

theorem copyTo (source : Path) :
    Abides host c ms (Action.change (·.copy source (pathOf m))) fun _ => True :=
  change fun _ hk _ _ h => .inr (.copy (hk m hm) h)

theorem writeTo (text : String) :
    Abides host c ms (Action.change (·.writeText (pathOf m) text)) fun _ => True :=
  change fun _ hk _ _ h => .inr (.write (hk m hm) h)

theorem unlink : Abides host c ms (Action.change (·.unlink (pathOf m))) fun _ => True :=
  change fun _ hk _ _ h => .inr (.unlink (hk m hm) h)

end Abides

/-! ## Making a directory -/

namespace Workspace

/-- The second half of making a directory. -/
def makeAt (p : Path) : Work Path := do
  Action.transact (·.makeDirs p)
  return p

theorem makeAt_apply (p : Path) (s : Site) :
    makeAt p s = match (s.world.disk.makeDirs p).1 with
      | .ok () => (.ok p, { s with world := { s.world with disk := (s.world.disk.makeDirs p).2 } })
      | .error e => (.error (.io e),
          { s with world := { s.world with disk := (s.world.disk.makeDirs p).2 } }) := by
  have hlift : (liftM (Action.transact (·.makeDirs p)) : Work Unit) s =
      ((Action.transact (·.makeDirs p) s.world).1,
        { s with world := (Action.transact (·.makeDirs p) s.world).2 }) := rfl
  rw [Action.transact_apply] at hlift
  unfold makeAt
  cases hmade : (s.world.disk.makeDirs p).1 with
  | ok u =>
    rw [hmade] at hlift
    exact bind_of_ok hlift
  | error e =>
    rw [hmade] at hlift
    exact bind_of_error hlift

theorem createDir_apply {name : String} {owner : Stage} {s : Site} {p : Path}
    (hp : s.workspace.path name = p) :
    createDir name owner s = makeAt p (if s.world.disk.pathExists p then s else s.register p owner) := by
  unfold createDir
  rw [bind_of_ok (show Work.workspace s = (.ok s.workspace, s) from rfl)]
  simp only [hp]
  rw [bind_of_ok (show (liftM Action.getDisk : Work Disk) s = (.ok s.world.disk, s) from rfl)]
  cases s.world.disk.pathExists p with
  | true => rfl
  | false =>
    exact bind_of_ok (show register p owner s =
      (.ok (!s.workspace.ledger.contains p), s.register p owner) from rfl)

end Workspace

/-! ## Rules for actions on a workspace -/

/-- An action on a workspace in a directory that goes by steps, once these products are in the
ledger. -/
abbrev Follows {α : Type} (host : Host) (c : Charter) (l : Location) (ms : List Location)
    (a : Work α) (Q : α → Prop) : Prop :=
  Keeps (Site.Prepared c l ms) (Trail host c) a Q

namespace Follows

variable {host : Host} {c : Charter} {l : Location} {ms : List Location} {α β : Type} {a : Work α}
  {P Q : α → Prop}

theorem of_trail (rel : ∀ s, s.Prepared c l ms → Trail host c s (a s).2)
    (post : ∀ s, s.Prepared c l ms → ∀ v, (a s).1 = .ok v → Q v) : Follows host c l ms a Q where
  inv s hs := hs.of_trail (rel s hs)
  rel := rel
  post := post

theorem seq {f : α → Work β} {Q : β → Prop} (ha : Follows host c l ms a P)
    (hf : ∀ v, P v → Follows host c l ms (f v) Q) : Follows host c l ms (a >>= f) Q :=
  ha.bind (fun _ _ _ => .trans) hf

theorem ret {v : α} (h : Q v) : Follows host c l ms (pure v) Q := Keeps.pure (fun _ => .refl) h

theorem fail {e : Fault} : Follows host c l ms (throw e : Work α) Q := Keeps.throw fun _ => .refl

theorem abort {e : Fault} {f : α → Work β} {Q : β → Prop} :
    Follows host c l ms ((throw e : Work α) >>= f) Q :=
  seq (P := fun _ => False) fail fun _ h => h.elim

theorem lift {a : Action α} (h : Abides host c ms a Q) : Follows host c l ms (liftM a) Q := by
  refine of_trail (fun s hs => ?_) fun s hs v hv => (h _ hs.lists).post s.world trivial v hv
  show Trail host c s { s with world := (a s.world).2 }
  have hmoves := (h _ hs.lists).rel s.world trivial
  exact hmoves.lift (fun w => { s with world := w }) fun w w' hmove =>
    Step.move (s := { s with world := w }) hmove

theorem workspace : Follows host c l ms Work.workspace fun k => k.root = pathOf l := by
  refine of_trail (fun _ _ => .refl) fun s hs v hv => ?_
  cases hv
  exact hs.root

theorem attempt (h : Follows host c l ms a Q) :
    Follows host c l ms (Work.attempt a) fun r => ∀ v, r = .ok v → Q v := by
  refine of_trail (fun s hs => h.rel s hs) fun s hs r hr v hv => ?_
  cases hr
  exact h.post s hs v hv

/-- An action that has put a product into the ledger is followed by one that needs it there. -/
theorem listing {m : Location} {f : α → Work β} {Q : β → Prop} (ha : Follows host c l ms a P)
    (hlists : ∀ s, s.Prepared c l ms → (a s).2.workspace.Lists c m)
    (hf : ∀ v, P v → Follows host c l (m :: ms) (f v) Q) : Follows host c l ms (a >>= f) Q := by
  have hstep (s : Site) (hs : s.Prepared c l ms) : Trail host c s ((a >>= f) s).2 ∧
      ∀ v, ((a >>= f) s).1 = .ok v → Q v := by
    have hfirst := ha.rel s hs
    have hthen : (a s).2.Prepared c l (m :: ms) :=
      ⟨(ha.inv s hs).root, List.forall_mem_cons.mpr ⟨hlists s hs, (ha.inv s hs).lists⟩⟩
    have hpost := ha.post s hs
    cases h : a s with
    | mk r s₁ =>
      rw [h] at hfirst hthen hpost
      cases r with
      | error e =>
        rw [bind_of_error h]
        exact ⟨hfirst, fun v hv => nomatch hv⟩
      | ok v =>
        rw [bind_of_ok h]
        have hnext := hf v (hpost v rfl)
        exact ⟨hfirst.trans (hnext.rel s₁ hthen), hnext.post s₁ hthen⟩
  exact of_trail (fun s hs => (hstep s hs).1) fun s hs => (hstep s hs).2

section

variable {m : Location} (hnames : ∀ n ∈ m, IsName n) (hm : c.product m)
include hnames hm

/-- What follows the registration of a product finds it in the ledger. -/
theorem register (owner : Stage) {f : Bool → Work β} {Q : β → Prop}
    (hf : ∀ new, Follows host c l (m :: ms) (f new) Q) :
    Follows host c l ms (Workspace.register (pathOf m) owner >>= f) Q := by
  refine listing (P := fun _ => True) (m := m) ?_ (fun s _ => ?_) fun new _ => hf new
  · exact of_trail (fun _ _ => .single (.enter owner hm hnames)) fun _ _ _ _ => trivial
  · exact ⟨hm, hnames, Ledger.contains_register _ _ owner⟩

omit hnames hm in
theorem removeStale (hm : m ∈ ms) :
    Follows host c l ms (Workspace.removeStale (pathOf m)) fun _ => True := by
  refine lift (Abides.change fun k hk d d' h => ?_)
  split at h
  · rename_i hd
    cases h
    exact .inr (.unlink (hk m hm) hd)
  · split at h
    · cases h
      exact .inl rfl
    · cases h

end

section

variable (hl : ∀ k ∈ l, IsName k) {name n : String} {ns : List String}
  (hname : name = String.intercalate "/" (n :: ns)) (hn : ∀ k ∈ n :: ns, IsName k)
include hl hname hn

theorem prepareOutput (hm : c.product (l ++ n :: ns)) (owner : Stage) {f : Path → Work β}
    {Q : β → Prop}
    (hf : Follows host c l ((l ++ n :: ns) :: ms) (f (pathOf (l ++ n :: ns))) Q) :
    Follows host c l ms (Workspace.prepareOutput name owner >>= f) Q := by
  have hnames := List.forall_mem_append.mpr ⟨hl, hn⟩
  unfold Workspace.prepareOutput
  rw [bind_assoc]
  refine seq workspace fun k hk => ?_
  simp only [Workspace.path_eq hl hname hn hk, bind_assoc]
  refine register hnames hm owner fun _ => ?_
  refine seq (removeStale List.mem_cons_self) fun _ _ => ?_
  rw [pure_bind]
  exact hf

/-- A directory is registered if it is not there, and made if it is missing. -/
theorem createDir (hm : c.directory (l ++ n :: ns)) (owner : Stage) :
    Follows host c l ms (Workspace.createDir name owner) fun p => p = pathOf (l ++ n :: ns) := by
  have hnames := List.forall_mem_append.mpr ⟨hl, hn⟩
  have hmake {s : Site} (hlisted : s.workspace.ledger.contains (pathOf (l ++ n :: ns)) = true ∨
      s.world.disk.pathExists (pathOf (l ++ n :: ns)) = true) :
      Step host c s (Workspace.makeAt (pathOf (l ++ n :: ns)) s).2 ∧
        ∀ p, (Workspace.makeAt (pathOf (l ++ n :: ns)) s).1 = .ok p → p = pathOf (l ++ n :: ns) := by
    have hstep := @Step.move host c s _ (.operate (.makeDirs hm hnames hlisted))
    rw [Workspace.makeAt_apply]
    cases (s.world.disk.makeDirs (pathOf (l ++ n :: ns))).1 with
    | ok u => exact ⟨hstep, fun p hp => (Except.ok.inj hp).symm⟩
    | error e => exact ⟨hstep, fun p hp => nomatch hp⟩
  have hcreate (s : Site) (hs : s.Prepared c l ms) :
      Trail host c s (Workspace.createDir name owner s).2 ∧
        ∀ p, (Workspace.createDir name owner s).1 = .ok p → p = pathOf (l ++ n :: ns) := by
    rw [Workspace.createDir_apply (Workspace.path_eq hl hname hn hs.root)]
    cases hthere : s.world.disk.pathExists (pathOf (l ++ n :: ns)) with
    | true =>
      obtain ⟨hstep, hpost⟩ := hmake (.inr hthere)
      exact ⟨.single hstep, hpost⟩
    | false =>
      obtain ⟨hstep, hpost⟩ := hmake (s := s.register (pathOf (l ++ n :: ns)) owner)
        (.inl (Ledger.contains_register _ _ owner))
      exact ⟨.head (.create owner hm hnames hthere) (.single hstep), hpost⟩
  exact of_trail (fun s hs => (hcreate s hs).1) fun s hs => (hcreate s hs).2

theorem copyIn (hm : c.product (l ++ n :: ns)) (source : Path) (owner : Stage) :
    Follows host c l ms (Workspace.copyIn source name owner)
      fun p => p = pathOf (l ++ n :: ns) := by
  have hnames := List.forall_mem_append.mpr ⟨hl, hn⟩
  refine seq workspace fun k hk => ?_
  rw [Workspace.path_eq hl hname hn hk]
  refine register hnames hm owner fun _ => ?_
  refine seq (lift (Abides.change fun k hk d d' h => ?_)) fun _ _ => ret rfl
  split at h
  · rename_i hd
    cases h
    exact .inr (.copy (hk _ List.mem_cons_self) hd)
  · cases h

theorem moveIn (hm : c.product (l ++ n :: ns)) {m : Location} (hsource : m ∈ ms)
    (hne : m ≠ l ++ n :: ns) (owner : Stage) :
    Follows host c l ms (Workspace.moveIn (pathOf m) name owner)
      fun p => p = pathOf (l ++ n :: ns) := by
  have hnames := List.forall_mem_append.mpr ⟨hl, hn⟩
  have hsource := List.mem_cons_of_mem (l ++ n :: ns) hsource
  have htarget : l ++ n :: ns ∈ (l ++ n :: ns) :: ms := List.mem_cons_self
  refine seq workspace fun k hk => ?_
  rw [Workspace.path_eq hl hname hn hk]
  refine register hnames hm owner fun _ => ?_
  refine seq (removeStale htarget) fun _ _ => ?_
  have hrename : Abides host c ((l ++ n :: ns) :: ms)
      (Action.change (·.rename (pathOf m) (pathOf (l ++ n :: ns)))) fun _ => True :=
    .change fun _ hk _ _ h => .inr (.rename (hk m hsource) (hk _ htarget) hne h)
  refine seq (lift (.attempt hrename)) fun r _ => ?_
  split
  · exact ret rfl
  · refine seq (lift (.copyTo htarget (pathOf m))) fun _ _ => ?_
    exact seq (lift (.attempt (.unlink hsource))) fun _ _ => ret rfl

end

/-- What is permitted is kept by an action that goes by steps. -/
theorem stays {T : Disk → Disk → Prop} {free : Location → Prop} (hp : Permits T free)
    (hproduct : ∀ m, c.product m → free m) (hdirectory : ∀ m, c.directory m → free m)
    (h : Follows host c l [] a Q) : StaysIn host T free (pathOf l) a Q := by
  have hstart {s : Site} (hs : s.workspace.root = pathOf l) : s.Prepared c l [] :=
    ⟨hs, fun _ hm => nomatch hm⟩
  exact ⟨fun s hs => (h.inv s (hstart hs)).root,
    fun s hs => Trail.passes hp hproduct hdirectory (h.rel s (hstart hs)),
    fun s hs => h.post s (hstart hs)⟩

end Follows

end Whittle
