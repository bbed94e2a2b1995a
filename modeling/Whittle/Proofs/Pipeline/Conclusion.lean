import Whittle.Proofs.Pipeline.Saving
import Whittle.Proofs.Pipeline.Start

/-!
# A run from its start to its release

Between the start of a run and the release of its workspace there are the stages and the saving
(`Begun.work_stays`). The release then removes what the stages have registered: the places at which
they work (`Begun.misses`).
-/

namespace Whittle.Pipeline

open Text Disk

section

variable {host : Host} {s : Settings} {p : Progress}

/-- What holds of making the directory of the output and of copying to it holds of saving. -/
theorem save_rel {R : Disk → Disk → Prop} (refl : ∀ d, R d d)
    (trans : ∀ {d d₁ d₂}, R d d₁ → R d₁ d₂ → R d d₂)
    (dirs : ∀ d q, s.outputPath.parent = some q → R d (d.makeDirs q).2)
    (copy : ∀ d c d', d.copy c s.outputPath = .ok d' → R d d') (w : World) :
    (save s p w).2.calls = w.calls ∧ R w.disk (save s p w).2.disk := by
  obtain ⟨next, saved, w', hsave, hcalls, hcases⟩ := save_cases s p w
  have hdisk := saveFirst_disk refl trans dirs copy (candidates s p) [] w.disk
  rw [hsave]
  refine ⟨hcalls, ?_⟩
  rcases hcases with ⟨c, hfirst, -⟩ | ⟨problems, hfirst, -⟩
  · rwa [hfirst] at hdisk
  · rwa [hfirst] at hdisk

theorem save_stays {T : Disk → Disk → Prop} {free : Location → Prop} (hp : Permits T free)
    (dirs : ∀ d q, T d (d.makeDirs q).2)
    (copy : ∀ d c d', d.copy c s.outputPath = .ok d' → T d d') :
    Stays host T (save s p) fun _ => True :=
  stays_of_disk (save_rel hp.refl hp.trans (fun d q _ => dirs d q) copy)

/-- After its stages a run saves the program, unless one of them has failed. -/
theorem work_cases {site₀ site : Site} {result : Except Fault (Progress × Option Path)}
    (h : work host s p site₀ = (result, site)) :
    ∃ site₁, (runStages host s (workStages s) p site₀).2 = site₁ ∧
      (site = site₁ ∨ ∃ q, site = { site₁ with world := (save s q site₁.world).2 }) := by
  rcases bind_cases h with ⟨e, hstages, -⟩ | ⟨q, site₁, hstages, hsave⟩
  · exact ⟨site, by rw [hstages], .inl rfl⟩
  · refine ⟨site₁, by rw [hstages], .inr ⟨q, ?_⟩⟩
    cases hsave
    rfl

/-- A run leaves the world of the release, and reports what was saved. -/
theorem conclude_cases {workspace : Workspace} {w w' : World} {r : Except Fault Report}
    (h : conclude host s p workspace w = (r, w')) :
    ∃ result site, work host s p ⟨w, workspace⟩ = (result, site) ∧
      w' = (Workspace.release site).2.world ∧
      ∀ report, r = .ok report → report.cleanup = some (Workspace.release site).1 ∧
        ∃ q, result = .ok (q, report.outputPath) := by
  unfold conclude at h
  cases hwork : work host s p ⟨w, workspace⟩ with
  | mk result site =>
    rw [hwork] at h
    refine ⟨result, site, rfl, ?_⟩
    cases result with
    | error e =>
      cases h
      exact ⟨rfl, nofun⟩
    | ok answer =>
      cases h
      refine ⟨rfl, fun report e => ?_⟩
      cases e
      exact ⟨rfl, answer.1, rfl⟩

end

section

variable {given : Settings} {base : Path} {w w' : World} {b : Start} {root source : Location}
  (h : Begun given base w w' b root source)
include h

theorem Begun.recipe (p : Pass) : p.recipe b.settings = p.recipe given := by
  cases p
  · exact h.containers.1
  · exact h.containers.2

theorem Begun.work_stays {T : Disk → Disk → Prop} {free : Location → Prop} (hp : Permits T free)
    (host : Host) (hmount : Mounts given)
    (htouch : ∀ language, Language.ofPath (anchor base given).sourceFile = some language →
      ∀ stage, given.enables stage = true → ∀ m, Touches given language.extension stage m →
        free (root ++ m))
    (dirs : ∀ d q, T d (d.makeDirs q).2)
    (copy : ∀ d c d', d.copy c (anchor base given).outputPath = .ok d' → T d d') :
    StaysIn host T free (pathOf root) (work host b.settings b.progress) fun _ => True := by
  obtain ⟨language, hlanguage, hsubject⟩ := h.subject
  have hext : b.progress.subject.extension = language.extension := by rw [hsubject]; rfl
  have hstages : ∀ stage ∈ workStages b.settings, ∀ m,
      Touches b.settings language.extension stage m → free (root ++ m) := by
    intro stage hstage m hm
    have henabled : b.settings.enables stage = true := (List.mem_filter.mp hstage).2
    exact htouch language hlanguage stage (h.enables ▸ henabled) m (hm.of_same h.backend h.recipe)
  refine hp.seqIn (runStages_stays hp h.rootNames (hmount.of_same h.backend h.recipe)
    language.extension _ hstages b.progress hext) fun q _ => ?_
  exact Permits.lift (save_stays hp dirs (h.output ▸ copy))

/-- The release misses a place where no stage works, if the lock file is not there and the directory
that is removed is not either. -/
theorem Begun.misses {free : Location → Prop} {workspace : Workspace} {o : Location}
    (henters : Enters free b.workspace workspace) (hfree : ∀ m, free m → root <+: m ∧ ¬ m <+: o)
    (hlock : ¬ root ++ [Artifacts.lockFile] <+: o)
    (hroot : root <+: o → w.disk.pathExists (anchor base given).workDir = true) :
    workspace.Misses root o := by
  refine ⟨fun a ha => ?_, fun lock e => ?_, fun hcreated => ?_⟩
  · rcases henters.new a ha with ha | ⟨m, hm, hnames, hpath⟩
    · rw [h.acquired.ledger] at ha
      cases ha
    · exact ⟨m, hnames, hpath, hfree m hm⟩
  · rw [henters.rest] at e
    exact ⟨_, names_lockFile h.rootNames, h.acquired.lock lock e, List.prefix_append _ _, hlock⟩
  · rw [henters.rest] at hcreated ⊢
    refine ⟨root, h.rootNames, h.rootPath, List.prefix_refl root, fun hprefix => ?_⟩
    have hcreated : b.workspace.createdRoot = true := hcreated
    rw [h.acquired.createdRoot, hroot hprefix] at hcreated
    cases hcreated

/-- Up to its release a run keeps an invariant, if its tools do. If then there are no links in the
work directory, the release leaves every place where no stage works. -/
theorem Begun.concludes {I : Disk → Prop} {free : Location → Prop}
    (hp : Permits (fun d d' => I d → I d') free) {host : Host} (hmount : Mounts given)
    (htouch : ∀ language, Language.ofPath (anchor base given).sourceFile = some language →
      ∀ stage, given.enables stage = true → ∀ m, Touches given language.extension stage m →
        free (root ++ m))
    (dirs : ∀ d q, I d → I (d.makeDirs q).2)
    (copy : ∀ d c d', d.copy c (anchor base given).outputPath = .ok d' → I d → I d')
    (hstraight : ∀ d, I d → d.Straight root) {final : World} {r : Except Fault Report}
    (hconclude : conclude host b.settings b.progress b.workspace w' = (r, final))
    (htools : ∀ made, final.calls = w'.calls ++ made →
      Answered host (fun d d' => I d → I d') w'.calls made) (hbegin : I w'.disk) :
    ∃ result site, work host b.settings b.progress ⟨w', b.workspace⟩ = (result, site) ∧
      I site.world.disk ∧
      (∀ report, r = .ok report → ∃ q, result = .ok (q, report.outputPath)) ∧
      ∀ o, (∀ m, free m → root <+: m ∧ ¬ m <+: o) → ¬ root ++ [Artifacts.lockFile] <+: o →
        (root <+: o → w.disk.pathExists (anchor base given).workDir = true) →
        Leaves o site.world.disk final.disk := by
  obtain ⟨result, site, hwork, rfl, hreport⟩ := conclude_cases hconclude
  have hstays := h.work_stays hp host hmount htouch dirs copy
  obtain ⟨-, ⟨made, hmade, hkept⟩, -⟩ := hstays.of_run h.rootPath hwork
  have hend := hkept (htools made ((release_calls site).trans hmade)) hbegin
  refine ⟨result, site, hwork, hend, fun report hr => (hreport report hr).2, fun o hfree hlock hroot => ?_⟩
  exact release_leaves (h.misses (hstays.enters h.rootPath hwork) hfree hlock hroot)
    (hstraight _ hend)

end

end Whittle.Pipeline
