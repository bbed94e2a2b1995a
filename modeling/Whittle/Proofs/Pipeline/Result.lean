import Whittle.Proofs.Pipeline.Conclusion
import Whittle.Proofs.Pipeline.Soundness
import Whittle.Proofs.Settings.Settling

/-!
# The result of a run

What a run says that it saved is there after the release of its workspace as it was after saving
(`run_keeps_result`), if the check could resolve the output and the work directory, and nobody makes
links. An output that goes up from a directory that is only made for it is not resolved: it may lead
into the work directory (`run_loses_result`).
-/

namespace Whittle.Pipeline

open Text Disk

theorem liftM_apply {α : Type} (a : Action α) (s : Site) :
    (liftM a : Work α) s = ((a s.world).1, { s with world := (a s.world).2 }) := rfl

/-- A run has saved its program at a path, and left this disk. -/
def SavedOn (host : Host) (given : Settings) (base : Path) (w : World) (p : Path) (d : Disk) :
    Prop :=
  ∃ b w₁ q site next w₂, start host given base w = (.ok b, w₁) ∧
    runStages host b.settings (workStages b.settings) b.progress ⟨w₁, b.workspace⟩ = (.ok q, site) ∧
    save b.settings q site.world = (.ok (next, some p), w₂) ∧ w₂.disk = d

/-- What the stages of a run say that they saved is at the output. -/
theorem work_saves {host : Host} {s : Settings} {p₀ q : Progress} {site₀ site : Site} {p : Path}
    (h : work host s p₀ site₀ = (.ok (q, some p), site)) :
    p = s.outputPath ∧
      (∃ q₀ site₁, runStages host s (workStages s) p₀ site₀ = (.ok q₀, site₁) ∧
        save s q₀ site₁.world = (.ok (q, some p), site.world)) ∧
      ∃ l n, site.world.disk.stat p = .ok (l, n) ∧ (n.isFile = true ∨ n = .sink) := by
  obtain ⟨q₀, site₁, hstages, hlift⟩ := bind_eq_ok h
  rw [liftM_apply] at hlift
  obtain ⟨next, saved, w₂, hsave, -, hcases⟩ := save_cases s q₀ site₁.world
  rw [hsave] at hlift
  cases hlift
  rcases hcases with ⟨c, hfirst, houtput⟩ | ⟨problems, -, hnone⟩
  · cases houtput
    exact ⟨rfl, ⟨q₀, site₁, hstages, hsave⟩, stat_saveFirst hfirst⟩
  · cases hnone

section

variable {host : Host} {given : Settings} {base : Path} {w w' : World} {root : Location}
  (hbase : base.isAbsolute = true) (hd : w.disk.Numbered) (hmount : Mounts given)
  (hroot : w.disk.placeOf (anchor base given).workDir = some root)
  (hstraight : w.disk.Straight root)
  (hout : Settings.Settles w.disk (anchor base given).outputPath)
  (hdir : Settings.Settles w.disk (anchor base given).workDir)
include hbase hd hmount hroot hstraight hout hdir

/-- What a run says that it saved is outside the work directory, and still there when the work
directory has been cleaned up. -/
theorem run_keeps_result {report : Report} (hrun : run host given base w = (.ok report, w'))
    (htools : ∀ made, w'.calls = w.calls ++ made →
      Answered host (fun d d' => SameLinks w.disk d → SameLinks w.disk d') w.calls made)
    {p : Path} (hp : report.outputPath = some p) :
    ∃ d l n, SavedOn host given base w p d ∧ d.stat p = .ok (l, n) ∧
      (n.isFile = true ∨ n = .sink) ∧ ¬ root <+: l ∧ w'.disk.get? l = some n ∧
      (d.stat (pathOf l) = .ok (l, n) → w'.disk.stat (pathOf l) = .ok (l, n)) ∧
      ((∀ P ∈ w.disk.placesOn p, ¬ root <+: P) → w'.disk.stat p = .ok (l, n)) := by
  obtain ⟨b, w₁, hstart, hconclude⟩ := bind_eq_ok hrun
  obtain ⟨root', source, hbegun⟩ := start_begun hbase hstart
  cases hroot.symm.trans hbegun.acquired.place
  obtain ⟨-, hdirAbsolute, houtAbsolute⟩ := isAbsolute_anchor hbase given
  obtain ⟨root', goal, hroot', hgoal, houtside⟩ := Settings.not_prefix_of_outputProblems
    houtAbsolute hout hdirAbsolute hdir hbegun.accepted
  cases hroot.symm.trans hroot'
  have hlinks : SameLinks w.disk w₁.disk :=
    (start_leaves (o := goal) hbase hd (fun l hl => ?_) (fun hfailed => by cases hfailed)
      hstart).links
  swap
  · cases hroot.symm.trans hl
    exact ⟨hstraight, fun h => houtside ((List.prefix_append _ _).trans h)⟩
  rw [← hbegun.calls] at htools
  obtain ⟨result, site, hwork, hend, hreport, hleaves⟩ := hbegun.concludes
    (permits_links hstraight) hmount (fun _ _ _ _ m _ => List.prefix_append root m)
    (fun d q hd => hd.trans (grows_makeDirs d q).links)
    (fun d c d' hcopy hd => by
      obtain ⟨goal, hcopied⟩ := copied hcopy
      exact hd.trans hcopied.ways.link)
    (fun d hd => hd.straight hstraight) hconclude htools hlinks
  obtain ⟨q, rfl⟩ := hreport report rfl
  rw [hp] at hwork
  obtain ⟨hpath, ⟨q₀, site₁, hstages, hsave⟩, l, n, hstat, hnode⟩ := work_saves hwork
  obtain rfl := hpath.trans hbegun.output
  obtain ⟨hlocate, hn⟩ := stat_eq_ok hstat
  cases hgoal.symm.trans (placeOf_eq houtAbsolute hend hlocate)
  -- the release works in the work directory only
  have hkept {o : Location} (ho : ¬ root <+: o) : Leaves o site.world.disk w'.disk :=
    hleaves o (fun m hm => ⟨hm, fun hmo => ho (hm.trans hmo)⟩)
      (fun hlock => ho ((List.prefix_append _ _).trans hlock)) (fun h => absurd h ho)
  have hfinal := (hkept houtside).holds goal n (List.prefix_refl goal) hn
  have hreached := locate_reached houtAbsolute hlocate
  have hclear : site.world.disk.Clear goal := hreached.clear fun target e => by
    rw [hn] at e
    cases e
    rcases hnode with h | h <;> cases h
  refine ⟨_, goal, n, ⟨b, w₁, q₀, site₁, q, _, hstart, hstages, hsave, rfl⟩, hstat, hnode, houtside,
    hfinal, stat_of_holds hclear hreached.isName (hkept houtside).holds, fun hway => ?_⟩
  exact stat_kept hend (hkept houtside).links houtAbsolute hstat
    (fun P hP hdir => (hkept (hway P hP)).holds P _ (List.prefix_refl P) hdir) hfinal

end

/-! ### Outputs that go up -/

/-- One reducer, and an output. -/
def reducingTo (output : Path) : Settings := { sampleSettings with outputFile := some output }

/-- A disk with a link to the work directory, which is not there yet, and one to a directory that
is. -/
def awaitingDisk : Disk where
  entries := (["l"], .link "/w") :: (["k"], .link "in") :: sampleDisk.entries
  cwd := []
  nextId := 2
  locked := []

def savedRun (output : Path) : Except Fault Report × World :=
  run sampleHost (reducingTo output) ⟨"/"⟩ (.ofDisk awaitingDisk)

theorem straight_awaitingDisk : awaitingDisk.Straight ["w"] := straight_of_entries (by decide)

theorem run_keeps_sampleResult : ∃ report w', savedRun ⟨"/k/../o.c"⟩ = (.ok report, w') ∧
    report.outputPath = some ⟨"/k/../o.c"⟩ ∧
    ∃ d l n, SavedOn sampleHost (reducingTo ⟨"/k/../o.c"⟩) ⟨"/"⟩ (.ofDisk awaitingDisk)
        ⟨"/k/../o.c"⟩ d ∧ d.stat ⟨"/k/../o.c"⟩ = .ok (l, n) ∧ (n.isFile = true ∨ n = .sink) ∧
      ¬ ["w"] <+: l ∧ w'.disk.get? l = some n ∧ w'.disk.stat ⟨"/k/../o.c"⟩ = .ok (l, n) := by
  have houtput : (savedRun ⟨"/k/../o.c"⟩).1.toOption.map Report.outputPath =
      some (some ⟨"/k/../o.c"⟩) := by decide +kernel
  cases hrun : savedRun ⟨"/k/../o.c"⟩ with
  | mk r w' =>
    rw [hrun] at houtput
    cases r with
    | error e => cases houtput
    | ok report =>
      have houtput : report.outputPath = some ⟨"/k/../o.c"⟩ := Option.some.inj houtput
      have hmount : Mounts (reducingTo ⟨"/k/../o.c"⟩) := fun hb => nomatch hb
      have hd : awaitingDisk.Numbered := numbered_of_entries (by decide) (by decide)
      have hroot : awaitingDisk.placeOf (anchor ⟨"/"⟩ (reducingTo ⟨"/k/../o.c"⟩)).workDir =
          some ["w"] := by decide +kernel
      have hout : Settings.Settles awaitingDisk
          (anchor ⟨"/"⟩ (reducingTo ⟨"/k/../o.c"⟩)).outputPath :=
        ⟨["o.c"], by decide +kernel, (straight_of_entries (by decide)).self⟩
      have hdir : Settings.Settles awaitingDisk
          (anchor ⟨"/"⟩ (reducingTo ⟨"/k/../o.c"⟩)).workDir :=
        ⟨["w"], by decide +kernel, straight_awaitingDisk.self⟩
      have hway : ∀ P ∈ awaitingDisk.placesOn ⟨"/k/../o.c"⟩, ¬ ["w"] <+: P := by decide +kernel
      obtain ⟨d, l, n, hsaved, hstat, hnode, houtside, hthere, -, hkept⟩ :=
        @run_keeps_result sampleHost (reducingTo ⟨"/k/../o.c"⟩) ⟨"/"⟩ (.ofDisk awaitingDisk) w'
          ["w"] (by decide) hd hmount hroot straight_awaitingDisk hout hdir report hrun
          (fun made _ =>
            answered_of_permits (permits_links straight_awaitingDisk) (by decide) made [])
          ⟨"/k/../o.c"⟩ houtput
      exact ⟨report, w', rfl, houtput, d, l, n, hsaved, hstat, hnode, houtside, hthere, hkept hway⟩

/-- A run says that it saved its result, which is removed with the work directory: the output goes
up from a missing directory and then into the work directory, or leads there by a link. -/
theorem run_loses_result :
    (∀ made, Answered sampleHost
      (fun d d' => SameLinks awaitingDisk d → SameLinks awaitingDisk d') [] made) ∧
    ((savedRun ⟨"/new/../w/o.c"⟩).1.toOption.map Report.outputPath =
        some (some ⟨"/new/../w/o.c"⟩) ∧
      (savedRun ⟨"/new/../w/o.c"⟩).2.disk.isFile ⟨"/new/../w/o.c"⟩ = false ∧
      (savedRun ⟨"/new/../w/o.c"⟩).2.disk.isFile ⟨"/w/o.c"⟩ = false) ∧
    (savedRun ⟨"/l/o.c"⟩).1.toOption.map Report.outputPath = some (some ⟨"/l/o.c"⟩) ∧
      (savedRun ⟨"/l/o.c"⟩).2.disk.isFile ⟨"/l/o.c"⟩ = false := by
  refine ⟨fun made => answered_of_permits (permits_links straight_awaitingDisk) (by decide) made [],
    ⟨?_, ?_, ?_⟩, ?_, ?_⟩ <;> decide +kernel

end Whittle.Pipeline
