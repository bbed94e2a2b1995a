import Whittle.Proofs.Pipeline.Records
import Whittle.Proofs.Workspace.Custody
import Whittle.Proofs.Workspace.Refusal

/-!
# What can end a run

A run fails only before its stages: if its settings are not valid, or if the work directory cannot be
had (`run_eq_error`). Then no tool was called and no file written. In all other cases every stage
that the settings leave in is run to its end, whatever the tools do, and the workspace is released,
once (`run_gate`).
-/

namespace Whittle.Pipeline

open Disk

/-! ## The start -/

section

variable {host : Host} {given : Settings} {base : Path} {w w' : World}

/-- The program of valid settings can be found. -/
theorem canonical_of_validate {s : Settings} {language : Language}
    (h : s.validate host base w = (.ok language, w')) :
    ∃ source, w'.disk.canonical s.sourceFile = .ok source := by
  obtain ⟨hdisk, -⟩ := Settings.validate_world h
  obtain ⟨-, hproblems, -⟩ := Settings.validate_eq_ok h
  obtain ⟨hfile, -⟩ := Settings.sourceProblems_eq_nil hproblems
  unfold isFile at hfile
  rw [hdisk, canonical]
  cases hstat : w.disk.stat s.sourceFile with
  | ok found => exact ⟨_, rfl⟩
  | error e =>
    rw [hstat] at hfile
    cases hfile

/-- A run does not begin if its settings are not valid or the work directory cannot be had, and
begins if neither is so. -/
theorem start_eq_error {e : Fault} :
    start host given base w = (.error e, w') ↔
      (prepare host w.disk base given).validate host base w = (.error e, w') ∨
        ∃ language w₁,
          (prepare host w.disk base given).validate host base w = (.ok language, w₁) ∧
          Workspace.acquire host (anchor base given).workDir w₁ = (.error e, w') := by
  unfold start
  rw [bind_of_ok (Action.getDisk_apply w)]
  cases hvalidate : (prepare host w.disk base given).validate host base w with
  | mk r w₁ =>
    cases r with
    | error cause =>
      rw [bind_of_error hvalidate]
      constructor
      · intro h
        cases h
        exact .inl rfl
      · rintro (h | ⟨_, _, h, -⟩)
        · cases h
          rfl
        · cases h
    | ok language =>
      obtain ⟨source, hsource⟩ := canonical_of_validate hvalidate
      have hask : Action.ask (·.canonical (prepare host w.disk base given).sourceFile) w₁ =
          (.ok source, w₁) := by
        rw [Action.ask_apply, hsource]
      rw [bind_of_ok hvalidate, bind_of_ok hask]
      dsimp only
      have hdir : (prepare host w.disk base given).workDir = (anchor base given).workDir := rfl
      rw [hdir]
      cases hacquire : Workspace.acquire host (anchor base given).workDir w₁ with
      | mk r w₂ =>
        cases r with
        | error cause =>
          rw [bind_of_error hacquire]
          constructor
          · intro h
            cases h
            exact .inr ⟨language, w₁, rfl, hacquire⟩
          · rintro (h | ⟨_, _, h, hagain⟩)
            · cases h
            · cases h
              cases hacquire.symm.trans hagain
              rfl
        | ok workspace =>
          rw [bind_of_ok hacquire]
          constructor
          · intro h
            cases h
          · rintro (h | ⟨_, _, h, hagain⟩)
            · cases h
            · cases h
              cases hacquire.symm.trans hagain

end

/-! ## The stages, saving and the release -/

/-- Once a run has begun, it answers: every stage of it is run to its end, and so is saving. -/
theorem conclude_ok (host : Host) (s : Settings) (p : Progress) (workspace : Workspace) (w : World) :
    ∃ last site next saved w₁, runStages host s (workStages s) p ⟨w, workspace⟩ = (.ok last, site) ∧
      save s last site.world = (.ok (next, saved), w₁) ∧
      workspace.Same site.workspace ∧
      ∃ report, conclude host s p workspace w =
          (.ok report, (Workspace.release { site with world := w₁ }).2.world) ∧
        report.cleanup = some (Workspace.release { site with world := w₁ }).1 := by
  obtain ⟨last, site, hrun, -⟩ := runStages_told host p ⟨w, workspace⟩ none fun x hx => hx
  obtain ⟨next, saved, w₁, hsave, -, -⟩ := save_cases s last site.world
  have hsame := (runStages_ledgerOnly host s (workStages s) p).rel ⟨w, workspace⟩ trivial
  rw [hrun] at hsame
  have hwork : work host s p ⟨w, workspace⟩ = (.ok (next, saved), { site with world := w₁ }) :=
    (bind_of_ok hrun).trans (lift_apply hsave)
  refine ⟨last, site, next, saved, w₁, hrun, hsave, hsame, ?_⟩
  unfold conclude
  rw [hwork]
  exact ⟨_, rfl, rfl⟩

/-- What a run has done that answers: all its stages and the saving, on a workspace that nobody had
released, and then the release, which gave back the lock. -/
structure Completes (host : Host) (given : Settings) (b : Start) (w w' : World) (report : Report) :
    Prop where
  stages : ∀ done stage rest, workStages given = done ++ stage :: rest →
    ∃ p site p' site',
      runStages host b.settings done b.progress ⟨w, b.workspace⟩ = (.ok p, site) ∧
      runStage host b.settings stage p site = (.ok p', site')
  ended : ∃ last site next saved w₁,
    runStages host b.settings (workStages given) b.progress ⟨w, b.workspace⟩ = (.ok last, site) ∧
    save b.settings last site.world = (.ok (next, saved), w₁) ∧
    site.workspace.report = none ∧
    report.cleanup = some (Workspace.release { site with world := w₁ }).1 ∧
    w' = (Workspace.release { site with world := w₁ }).2.world ∧
    (Workspace.release { site with world := w₁ }).2.workspace.isReleased = true ∧
    Workspace.release (Workspace.release { site with world := w₁ }).2 =
      Workspace.release { site with world := w₁ } ∧
    Workspace.drop (Workspace.release { site with world := w₁ }).2 =
      (Workspace.release { site with world := w₁ }).2
  unlocked : ∃ lock, b.workspace.lock = some lock ∧ lock.id ∈ w.disk.locked ∧
    lock.id ∉ w'.disk.locked

section

variable {host : Host} {given : Settings} {base : Path} {w w' : World}

theorem workStages_of_start {b : Start} (h : start host given base w = (.ok b, w')) :
    workStages b.settings = workStages given := by
  rw [workStages, workStages, (start_told h).1]

/-- A run fails if and only if it does not begin. -/
theorem run_eq_error {e : Fault} :
    run host given base w = (.error e, w') ↔ start host given base w = (.error e, w') := by
  unfold run
  cases hstart : start host given base w with
  | mk r w₁ =>
    cases r with
    | error cause =>
      rw [bind_of_error hstart]
      constructor <;> intro h <;> cases h <;> rfl
    | ok b =>
      rw [bind_of_ok hstart]
      obtain ⟨last, site, next, saved, w₂, -, -, -, report, hconclude, -⟩ :=
        conclude_ok host b.settings b.progress b.workspace w₁
      rw [hconclude]
      constructor <;> intro h <;> cases h

theorem run_completes {report : Report} (h : run host given base w = (.ok report, w')) :
    ∃ b w₁, start host given base w = (.ok b, w₁) ∧ Completes host given b w₁ w' report := by
  obtain ⟨b, w₁, hstart, hconclude⟩ := bind_eq_ok h
  obtain ⟨last, site, next, saved, w₂, hrun, hsave, hsame, report', hconclude', hcleanup⟩ :=
    conclude_ok host b.settings b.progress b.workspace w₁
  cases hconclude'.symm.trans hconclude
  obtain ⟨w₀, -, -, hacquire⟩ := start_acquires hstart
  obtain ⟨hreport, lock, hlock, hheld⟩ := Workspace.acquire_locks hacquire
  have hunreleased : site.workspace.report = none := by
    rw [hsame]
    exact hreport
  have hlocked : site.workspace.lock = some lock := by
    rw [hsame]
    exact hlock
  obtain ⟨hreleased, hagain, hdrop⟩ :=
    Workspace.release_once (s := { site with world := w₂ }) hunreleased
  refine ⟨b, w₁, hstart, ?_, ?_, lock, hlock, hheld, Workspace.release_unlocks hunreleased hlocked⟩
  · intro done stage rest hsplit
    rw [← workStages_of_start hstart] at hsplit
    obtain ⟨p, site, p', site', r, hdone, hstep, -⟩ := runStages_step hrun none hsplit
    exact ⟨p, site, p', site', hdone, hstep⟩
  · rw [← workStages_of_start hstart]
    exact ⟨last, site, next, saved, w₂, hrun, hsave, hunreleased, hcleanup, rfl, hreleased, hagain,
      hdrop⟩

/-- A run fails if and only if its settings are not valid or the work directory cannot be had; a
program that is valid is found. A run that fails has called no tool and written no file, and left the
disk as it was if the settings are not valid, or if somebody else has the directory and the
directory is found by its path. A run that does not fail completes. -/
theorem run_gate (hbase : base.isAbsolute = true) (hnested : w.disk.Nested)
    (hlocks : w.disk.LocksNumbered) :
    (∀ e w', run host given base w = (.error e, w') ↔
      (prepare host w.disk base given).validate host base w = (.error e, w') ∨
        ∃ language w₁,
          (prepare host w.disk base given).validate host base w = (.ok language, w₁) ∧
          Workspace.acquire host (anchor base given).workDir w₁ = (.error e, w')) ∧
    (∀ language w₁, (prepare host w.disk base given).validate host base w = (.ok language, w₁) →
      ∃ source, w₁.disk.canonical (prepare host w.disk base given).sourceFile = .ok source) ∧
    (∀ e w', run host given base w = (.error e, w') →
      w'.calls = w.calls ∧ Unwritten w.disk w'.disk ∧
      (e.kind = .validation → w'.disk = w.disk) ∧
      (e.kind = .workspaceBusy → w.disk.Finds (anchor base given).workDir →
        w'.disk = w.disk)) ∧
    ∀ report w', run host given base w = (.ok report, w') →
      ∃ b w₁, start host given base w = (.ok b, w₁) ∧ Completes host given b w₁ w' report := by
  refine ⟨fun e w' => run_eq_error.trans start_eq_error, fun language w₁ => canonical_of_validate,
    fun e w' h => ?_, fun report w' => run_completes⟩
  rcases start_eq_error.mp (run_eq_error.mp h) with hinvalid | ⟨language, w₁, hvalid, hacquire⟩
  · obtain ⟨hdisk, hcalls⟩ := Settings.validate_world hinvalid
    refine ⟨hcalls, fun l id c x hfile => by rwa [hdisk] at hfile, fun _ => hdisk, fun _ _ => hdisk⟩
  · obtain ⟨hdisk, hcalls⟩ := Settings.validate_world hvalid
    obtain ⟨hcalls', hunwritten, hkind, hbusy⟩ := Workspace.acquire_refused
      (isAbsolute_anchor hbase given).2.1 (hdisk ▸ hnested) (hdisk ▸ hlocks) hacquire
    rw [hdisk] at hunwritten hbusy
    refine ⟨hcalls'.trans hcalls, hunwritten, fun hvalidation => ?_, hbusy⟩
    rw [hvalidation] at hkind
    simp at hkind

end

/-! ### A directory that is held -/

/-- A program, a reducer, and a directory that another run holds. -/
def heldDisk : Disk where
  entries :=
    [(["in"], .dir), (["in", "a.c"], .file 0 "int x;\n".toUTF8 false), (["bin"], .dir),
     (["bin", "red"], .file 1 ByteArray.empty true), (["d"], .dir),
     (["d", Artifacts.lockFile], .file 2 "held\n".toUTF8 false)]
  cwd := []
  nextId := 3
  locked := [2]

/-- A run that wants a directory. -/
def wanting (dir : String) : Settings := { sampleSettings with workDir := ⟨dir⟩ }

theorem run_gate_held : ∃ e w',
    run sampleHost (wanting "/d") ⟨"/"⟩ (.ofDisk heldDisk) = (.error e, w') ∧
      e = .workspaceBusy ⟨"/d"⟩ ∧ w'.disk = heldDisk := by
  have hbusy : (run sampleHost (wanting "/d") ⟨"/"⟩ (.ofDisk heldDisk)).1 =
      .error (.workspaceBusy ⟨"/d"⟩) := by decide +kernel
  have hfinds : heldDisk.Finds (anchor ⟨"/"⟩ (wanting "/d")).workDir := fun _ _ _ => by
    decide +kernel
  have hlocks : ∀ id ∈ heldDisk.locked, id < heldDisk.nextId := by decide
  obtain ⟨-, -, hrefused, -⟩ := @run_gate sampleHost (wanting "/d") ⟨"/"⟩ (.ofDisk heldDisk)
    (by decide) (nested_of_entries (by decide)) hlocks
  cases hrun : run sampleHost (wanting "/d") ⟨"/"⟩ (.ofDisk heldDisk) with
  | mk r w' =>
    rw [hrun] at hbusy
    obtain rfl : r = .error (.workspaceBusy ⟨"/d"⟩) := hbusy
    obtain ⟨-, -, -, hunchanged⟩ := hrefused _ _ hrun
    exact ⟨_, w', rfl, rfl, hunchanged rfl hfinds⟩

/-- A path that goes up from a missing directory does not find the directory that is held, and the
run that is refused takes it away from the run that has it. -/
theorem run_evicts_holder :
    (run sampleHost (wanting "/missing/../d") ⟨"/"⟩ (.ofDisk heldDisk)).1 =
        .error (.workspaceBusy ⟨"/d"⟩) ∧
      heldDisk.get? ["d"] = some .dir ∧
      (run sampleHost (wanting "/missing/../d") ⟨"/"⟩ (.ofDisk heldDisk)).2.disk.get? ["d"] =
        none := by
  refine ⟨?_, ?_, ?_⟩ <;> decide +kernel

end Whittle.Pipeline
