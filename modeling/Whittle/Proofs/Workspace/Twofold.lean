import Whittle.Proofs.Disk.Twofold
import Whittle.Proofs.Tool.Calls
import Whittle.Proofs.Workspace.Trail

/-!
# Two workspaces in one directory

Two worlds are alike if their disks are, and no call tells them apart. On two such worlds, and in the
same directory, what a run does with its workspace answers the same and leaves them alike: a product
that is prepared, copied or moved is the same on both from then on (`Fresh`).

A `Script` says what the tools of a run do by nothing but the number of the call, the program and its
arguments; the names of containers, which are new in every run, do not count. Two hosts that perform
one script do the same to two disks that are alike (`Script.launch`).
-/

namespace Whittle

open Disk

/-! ## Tools that go by a script -/

/-- What a tool does at one place. -/
inductive Edit where
  | write (place : Location) (content : ByteArray)
  | remove (place : Location)
  deriving DecidableEq

namespace Edit

def place : Edit → Location
  | write place _ => place
  | remove place => place

/-- The disk behind an edit; what cannot be done is not done. -/
def apply (d : Disk) : Edit → Disk
  | write place content => (d.write (pathOf place) content false).toOption.getD d
  | remove place => (d.unlink (pathOf place)).toOption.getD d

end Edit

/-- What a call of a tool does, and how it ends. -/
structure Effect where
  edits : List Edit
  result : Except Fault Int

abbrev Script := Nat → Path → List String → Effect

/-- The arguments of a call without the name of a container. -/
def unnamed : List String → List String
  | "run" :: "--name" :: _ :: rest => "run" :: "--name" :: "" :: rest
  | ["rm", "-f", _] => ["rm", "-f", ""]
  | argv => argv

/-- A call as it is told apart from others: its program, its arguments without the name of a
container, and its directory. -/
def Call.shape (c : Call) : Path × List String × Path := (c.program, unnamed c.argv, c.cwd)

namespace Script

/-- The tools of a host go by a script. -/
structure PerformedBy (script : Script) (host : Host) : Prop where
  result : ∀ before call, (host.launch before call).result =
    (script before.length call.program (unnamed call.argv)).result
  disk : ∀ before call, (host.launch before call).disk =
    (script before.length call.program (unnamed call.argv)).edits.foldl Edit.apply call.disk

/-- What a script does at a call it does where the call may leave products. -/
def KeepsTo (script : Script) (c : Charter) : Prop :=
  ∀ n program argv products, c.call program argv products →
    ∀ e ∈ (script n program argv).edits, e.place ∈ products

end Script

/-! ## What a script does to two disks -/

section

variable {S F : Set Location} {d d' : Disk}

theorem Edit.alike (h : Alike S F d d') {e : Edit} (hp : Known S F (pathOf e.place)) :
    Alike S F (e.apply d) (e.apply d') := by
  cases e with
  | write place content =>
    have hp : Known S F (pathOf place) := hp
    have hwrite := h.write hp content false
    simp only [Edit.apply]
    generalize d.write (pathOf place) content false = r,
      d'.write (pathOf place) content false = r' at hwrite
    cases hwrite with
    | ok h => exact h
    | error e => exact h
  | remove place =>
    have hp : Known S F (pathOf place) := hp
    have hunlink := h.unlink hp
    simp only [Edit.apply]
    generalize d.unlink (pathOf place) = r, d'.unlink (pathOf place) = r' at hunlink
    cases hunlink with
    | ok h => exact h
    | error e => exact h

theorem edits_alike {es : List Edit} (hes : ∀ e ∈ es, Known S F (pathOf e.place))
    (h : Alike S F d d') : Alike S F (es.foldl Edit.apply d) (es.foldl Edit.apply d') := by
  induction es generalizing d d' with
  | nil => exact h
  | cons e es ih =>
    exact ih (fun e' he' => hes e' (List.mem_cons_of_mem _ he'))
      (Edit.alike h (hes e List.mem_cons_self))

end

/-! ## Worlds and workspaces that are alike -/

/-- Worlds that differ in nothing that a run can see, files at places of `S` set aside. -/
structure World.Alike (S F : Set Location) (w w' : World) : Prop where
  disk : Disk.Alike S F w.disk w'.disk
  calls : w.calls.map Call.shape = w'.calls.map Call.shape

/-- Such worlds, with a workspace in the same directory. -/
structure Site.Alike (root : Location) (S F : Set Location) (s s' : Site) : Prop where
  world : World.Alike S F s.world s'.world
  dir : s.workspace.root = pathOf root
  dir' : s'.workspace.root = pathOf root

/-- The path of a place that has become the same. -/
structure Fresh (S F : Set Location) (m : Location) (p : Path) : Prop where
  path : p = pathOf m
  names : ∀ n ∈ m, IsName n
  opens : Open S p
  fresh : m ∈ F

namespace Fresh

variable {S F F' : Set Location} {m : Location} {p : Path} (h : Fresh S F m p)
include h

theorem mono (hF : F ⊆ F') : Fresh S F' m p := ⟨h.path, h.names, h.opens, hF h.fresh⟩

theorem known : Known S F p := by
  refine ⟨h.opens, fun _ => ?_⟩
  rw [h.path, goal_pathOf h.names]
  exact h.fresh

end Fresh

/-! ## Actions -/

namespace Action

variable {S F : Set Location} {α : Type}

theorem getDisk_paired : Paired (World.Alike S) F getDisk getDisk fun F' d d' => d.Alike S F' d' :=
  fun _ _ h => ⟨F, subset_rfl, h, .ok h.disk⟩

theorem ask_paired {f : Disk → Except IoError α}
    (hf : ∀ d d' : Disk, d.Alike S F d' → f d = f d') :
    Paired (World.Alike S) F (ask f) (ask f) fun _ v v' => v = v' := by
  intro w w' h
  rw [ask_apply, ask_apply, hf _ _ h.disk]
  cases f w'.disk with
  | ok v => exact ⟨F, subset_rfl, h, .ok rfl⟩
  | error e => exact ⟨F, subset_rfl, h, .error _⟩

theorem change_paired {f : Disk → Except IoError Disk} {F' : Set Location} (hF : F ⊆ F')
    (hf : ∀ d d' : Disk, d.Alike S F d' → Matches (Disk.Alike S F') (f d) (f d')) :
    Paired (World.Alike S) F (change f) (change f) fun F₁ _ _ => F' ⊆ F₁ := by
  intro w w' h
  have hd := hf _ _ h.disk
  rw [change_apply, change_apply]
  generalize f w.disk = r, f w'.disk = r' at hd
  cases hd with
  | ok hd => exact ⟨F', hF, ⟨hd, h.calls⟩, .ok subset_rfl⟩
  | error e => exact ⟨F, subset_rfl, h, .error _⟩

theorem transact_paired {f : Disk → Except IoError Unit × Disk}
    (hf : ∀ d d' : Disk, d.Alike S F d' → (f d).1 = (f d').1 ∧ (f d).2.Alike S F (f d').2) :
    Paired (World.Alike S) F (transact f) (transact f) fun _ _ _ => True := by
  intro w w' h
  obtain ⟨hr, hd⟩ := hf _ _ h.disk
  rw [transact_apply, transact_apply, hr]
  cases (f w'.disk).1 with
  | ok u => exact ⟨F, subset_rfl, ⟨hd, h.calls⟩, .ok trivial⟩
  | error e => exact ⟨F, subset_rfl, ⟨hd, h.calls⟩, .error _⟩

theorem warn_paired (text text' : String) :
    Paired (World.Alike S) F (warn text) (warn text') fun _ _ _ => True :=
  fun _ _ h => ⟨F, subset_rfl, ⟨h.disk, h.calls⟩, .ok trivial⟩

theorem freshId_paired (host host' : Host) :
    Paired (World.Alike S) F (freshId host) (freshId host') fun _ _ _ => True :=
  fun _ _ h => ⟨F, subset_rfl, ⟨h.disk, h.calls⟩, .ok trivial⟩

theorem attempt_paired {a b : Action α} {Q : Set Location → α → α → Prop}
    (h : Paired (World.Alike S) F a b Q) :
    Paired (World.Alike S) F (attempt a) (attempt b) fun F' r r' => Matches (Q F') r r' := by
  intro w w' hw
  obtain ⟨F', hF, hw', hr⟩ := h w w' hw
  exact ⟨F', hF, hw', .ok hr⟩

/-- A call that cannot be told apart from another one has the same effect, if it keeps to what is the
same already. -/
theorem launch_paired {script : Script} {host host' : Host} (hhost : script.PerformedBy host)
    (hhost' : script.PerformedBy host') {program cwd : Path} {argv argv' : List String}
    (hargv : unnamed argv = unnamed argv')
    (hedits : ∀ n, ∀ e ∈ (script n program (unnamed argv)).edits, Known S F (pathOf e.place)) :
    Paired (World.Alike S) F (launch host program argv cwd) (launch host' program argv' cwd)
      fun _ code code' => code = code' := by
  intro w w' h
  have hlength : w.calls.length = w'.calls.length := by
    simpa using congrArg List.length h.calls
  rw [launch_apply, launch_apply, hhost.result, hhost'.result, ← hlength, ← hargv]
  refine ⟨F, subset_rfl, ⟨?_, ?_⟩, .of_eq rfl⟩
  · simp only [World.after, hhost.disk, hhost'.disk, ← hlength, ← hargv]
    exact edits_alike (hedits _) h.disk
  · simp only [World.after, List.map_append, h.calls, List.map_cons, List.map_nil, Call.shape, hargv]

end Action

/-! ## Work -/

namespace Work

variable {root : Location} {S F : Set Location} {α β : Type}

theorem lift_paired {a : Action α} {b : Action β} {Q : Set Location → α → β → Prop}
    (h : Paired (World.Alike S) F a b Q) :
    Paired (Site.Alike root S) F (liftM a) (liftM b) Q := by
  intro s s' hs
  obtain ⟨F', hF, hw, hr⟩ := h s.world s'.world hs.world
  exact ⟨F', hF, ⟨hw, hs.dir, hs.dir'⟩, hr⟩

theorem workspace_paired : Paired (Site.Alike root S) F Work.workspace Work.workspace
    fun _ k k' => k.root = pathOf root ∧ k'.root = pathOf root :=
  fun _ _ h => ⟨F, subset_rfl, h, .ok ⟨h.dir, h.dir'⟩⟩

theorem attempt_paired {a : Work α} {b : Work β} {Q : Set Location → α → β → Prop}
    (h : Paired (Site.Alike root S) F a b Q) :
    Paired (Site.Alike root S) F (attempt a) (attempt b) fun F' r r' => Matches (Q F') r r' := by
  intro s s' hs
  obtain ⟨F', hF, hs', hr⟩ := h s s' hs
  exact ⟨F', hF, hs', .ok hr⟩

end Work

/-! ## Operations on a workspace -/

namespace Workspace

/-- A place in a work directory that can be reached without passing a place of a set. -/
structure Spot (root : Location) (S : Set Location) (name : String) (m : Location) : Prop where
  path : ∀ k : Workspace, k.root = pathOf root → k.path name = pathOf m
  names : ∀ n ∈ m, IsName n
  opens : Open S (pathOf m)

variable {root m : Location} {S F : Set Location} {name : String}

theorem register_paired (p : Path) (owner : Stage) :
    Paired (Site.Alike root S) F (register p owner) (register p owner) fun _ _ _ => True :=
  fun _ _ h => ⟨F, subset_rfl, ⟨h.world, h.dir, h.dir'⟩, .ok trivial⟩

theorem removeStale_paired (hspot : Spot root S name m) :
    Paired (Site.Alike root S) F (removeStale (pathOf m)) (removeStale (pathOf m))
      fun F' _ _ => Fresh S F' m (pathOf m) := by
  have hchange : Paired (World.Alike S) F (Action.change fun d => d.cleared (pathOf m))
      (Action.change fun d => d.cleared (pathOf m)) fun F₁ _ _ => insert m F ⊆ F₁ :=
    Action.change_paired (Set.subset_insert m F) fun d d' h =>
      h.cleared hspot.names hspot.opens
  exact Work.lift_paired (hchange.mono fun F' _ _ _ hF' =>
    ⟨rfl, hspot.names, hspot.opens, hF' (Set.mem_insert m F)⟩)

theorem prepareOutput_paired (hspot : Spot root S name m) (owner : Stage) :
    Paired (Site.Alike root S) F (prepareOutput name owner) (prepareOutput name owner)
      (Equal fun F' p => Fresh S F' m p) := by
  refine Work.workspace_paired.bind fun F₁ k k' _ hk => ?_
  rw [hspot.path k hk.1, hspot.path k' hk.2]
  refine (register_paired _ owner).bind fun F₂ _ _ _ _ => ?_
  refine (removeStale_paired hspot).bind fun F₃ _ _ _ hfresh => ?_
  exact .pure ⟨rfl, hfresh⟩

/-- A directory is made on both sides, or on neither. -/
theorem createDir_paired (hspot : Spot root S name m) (hclean : Clean S (pathOf m))
    (owner : Stage) : Paired (Site.Alike root S) F (createDir name owner) (createDir name owner)
      fun _ p p' => p = p' ∧ p = pathOf m := by
  refine Work.workspace_paired.bind fun F₁ k k' _ hk => ?_
  rw [hspot.path k hk.1, hspot.path k' hk.2]
  refine (Work.lift_paired Action.getDisk_paired).bind fun F₂ d d' _ hd => ?_
  have hmake {F : Set Location} : Paired (Site.Alike root S) F
      (do
        (Action.transact (·.makeDirs (pathOf m)) : Action Unit)
        return pathOf m : Work Path)
      (do
        (Action.transact (·.makeDirs (pathOf m)) : Action Unit)
        return pathOf m : Work Path) fun _ p p' => p = p' ∧ p = pathOf m := by
    refine (Work.lift_paired (Action.transact_paired fun d d' h => h.makeDirs hclean)).bind
      fun F₃ _ _ _ _ => ?_
    exact .pure ⟨rfl, rfl⟩
  rw [hd.pathExists (hclean.knows F₂)]
  split
  · exact (register_paired _ owner).bind fun F₃ _ _ _ _ => hmake
  · exact hmake

theorem copyIn_paired (hspot : Spot root S name m) {source : Path} (hs : Known S F source)
    (owner : Stage) :
    Paired (Site.Alike root S) F (copyIn source name owner) (copyIn source name owner)
      (Equal fun F' p => Fresh S F' m p) := by
  refine Work.workspace_paired.bind fun F₁ k k' hF₁ hk => ?_
  rw [hspot.path k hk.1, hspot.path k' hk.2]
  refine (register_paired _ owner).bind fun F₂ _ _ hF₂ _ => ?_
  have hs : Known S F₂ source := hs.mono (hF₁.trans hF₂)
  refine (Work.lift_paired (Action.change_paired (Set.subset_insert m F₂) fun d d' h => ?_)).bind
    fun F₃ _ _ _ hF₃ => ?_
  · have hcopy := h.copy hs hspot.opens
    rw [goal_pathOf hspot.names] at hcopy
    generalize d.copy source (pathOf m) = r, d'.copy source (pathOf m) = r' at hcopy
    cases hcopy with
    | ok h => exact .ok h
    | error e => exact .error _
  exact .pure ⟨rfl, rfl, hspot.names, hspot.opens, hF₃ (Set.mem_insert m F₂)⟩

/-- What is the same and is moved stays the same, and so does what is copied instead. -/
theorem moveIn_paired (hspot : Spot root S name m) {l : Location} {source : Path}
    (hs : Fresh S F l source) (owner : Stage) :
    Paired (Site.Alike root S) F (moveIn source name owner) (moveIn source name owner)
      (Equal fun F' p => Fresh S F' m p) := by
  refine Work.workspace_paired.bind fun F₁ k k' hF₁ hk => ?_
  rw [hspot.path k hk.1, hspot.path k' hk.2]
  refine (register_paired _ owner).bind fun F₂ _ _ hF₂ _ => ?_
  refine (removeStale_paired hspot).bind fun F₃ _ _ hF₃ ht => ?_
  have hs := hs.mono ((hF₁.trans hF₂).trans hF₃)
  obtain ⟨rfl, hnames, hopens, hfresh⟩ := hs
  have hrename : Paired (World.Alike S) F₃ (Action.change (·.rename (pathOf l) (pathOf m)))
      (Action.change (·.rename (pathOf l) (pathOf m))) fun F' _ _ => F₃ ⊆ F' :=
    Action.change_paired subset_rfl fun d d' h =>
      h.rename hnames ht.names hopens ht.opens hfresh ht.fresh
  refine (Work.lift_paired (Action.attempt_paired hrename)).bind fun F₄ r r' hF₄ hr => ?_
  have ht := ht.mono hF₄
  cases hr with
  | ok => exact .pure ⟨rfl, ht⟩
  | error e =>
    have hs : Known S F₄ (pathOf l) := Fresh.known ⟨rfl, hnames, hopens, hF₄ hfresh⟩
    have hcopy : Paired (World.Alike S) F₄ (Action.change (·.copy (pathOf l) (pathOf m)))
        (Action.change (·.copy (pathOf l) (pathOf m))) fun F' _ _ => F₄ ⊆ F' :=
      Action.change_paired subset_rfl fun d d' h =>
        (h.copy hs ht.opens).mono fun _ _ he => he.mono (Set.subset_insert _ F₄)
    refine (Work.lift_paired hcopy).bind fun F₅ _ _ hF₅ _ => ?_
    have hunlink : Paired (World.Alike S) F₅ (Action.change (·.unlink (pathOf l)))
        (Action.change (·.unlink (pathOf l))) fun F' _ _ => F₅ ⊆ F' :=
      Action.change_paired subset_rfl fun d d' h => h.unlink (hs.mono hF₅)
    refine (Work.lift_paired (Action.attempt_paired hunlink)).bind fun F₆ _ _ hF₆ _ => ?_
    exact .pure ⟨rfl, ht.mono (hF₅.trans hF₆)⟩

end Workspace

end Whittle
