import Whittle.Proofs.Pipeline.Input
import Whittle.Proofs.Pipeline.Result

/-!
# The work directory after a run

A work directory that was there before a run is `Restored` by it, if its tools keep to their products
and its release removes everything that it is to remove; one that was not there is gone
(`run_restores`). A work directory that is given by way of a missing directory is removed although it
was there, and an output that is given so may be left in it (`run_loses_directory`).
-/

namespace Whittle.Pipeline

open Text Disk

/-- A work directory with what was in it before a run, but for what the ledger of the run covers:
files of its stages, and directories that were not there. The lock file is gone. -/
structure Restored (s : Settings) (ext : String) (root : Location) (k : Ledger)
    (before after : Disk) : Prop where
  entries : ∀ l, root <+: l → l ≠ root ++ [Artifacts.lockFile] → ∀ n,
    after.get? l = some n ↔ before.get? l = some n ∧ ¬ k.Covers l
  registered : ∀ a ∈ k.artifacts,
    (∃ stage m, s.enables stage = true ∧ FileAt s ext stage m ∧ a.path = pathOf (root ++ m)) ∨
      ∃ name ∈ ["temp", "dg-data", "giri-data"], a.path = pathOf (root ++ [name]) ∧
        before.get? (root ++ [name]) = none
  lock : after.get? (root ++ [Artifacts.lockFile]) = none

/-! ## Saving outside a directory -/

/-- Saving leaves an orderly disk. In a directory in which the output is not it makes at most
directories that have been there before. -/
theorem save_outside {s : Settings} {d₀ : Disk} {root goal : Location} (hnested : d₀.Nested)
    (hout : s.outputPath.isAbsolute = true) (hsettled : Settled d₀ (namesOf s.outputPath.text) goal)
    (houtside : ¬ root <+: goal) (p : Progress) (w : World) (horderly : Orderly d₀ w.disk) :
    Orderly d₀ (save s p w).2.disk ∧ ∀ P, root <+: P →
      (save s p w).2.disk.get? P = w.disk.get? P ∨
        d₀.get? P = some .dir ∧ w.disk.get? P = none := by
  let R (d d' : Disk) : Prop := Orderly d₀ d → Orderly d₀ d' ∧ ∀ P, root <+: P →
    d'.get? P = d.get? P ∨ d₀.get? P = some .dir ∧ d.get? P = none
  have hrefl (d : Disk) : R d d := fun h => ⟨h, fun _ _ => .inl rfl⟩
  have htrans {d d₁ d₂ : Disk} (h : R d d₁) (h₁ : R d₁ d₂) : R d d₂ := by
    intro hd
    obtain ⟨hd₁, hleft⟩ := h hd
    obtain ⟨hd₂, hleft₁⟩ := h₁ hd₁
    refine ⟨hd₂, fun P hP => ?_⟩
    rcases hleft P hP with e | hmade
    · rw [← e]
      exact hleft₁ P hP
    · exact .inr hmade
  have hdirs (d : Disk) (q : Path) (hq : s.outputPath.parent = some q) : R d (d.makeDirs q).2 := by
    intro hd
    have hgrows := grows_makeDirs d q
    have habsolute := Path.isAbsolute_parent hout hq
    refine ⟨⟨hd.links.trans hgrows.links, hd.nested.makeDirs (starts_of_absolute habsolute)⟩, fun P hP => ?_⟩
    refine or_iff_not_imp_left.mpr fun hchanged => ?_
    obtain ⟨hnone, -⟩ := (hgrows.get? P).resolve_left hchanged
    refine ⟨?_, hnone⟩
    exact (hsettled.makeDirs hnested hd.links habsolute (Path.names_parent hq)
      hchanged).resolve_left fun hway => houtside (hP.trans hway)
  have hcopy (d : Disk) (c : Path) (d' : Disk) (h : d.copy c s.outputPath = .ok d') : R d d' := by
    intro hd
    obtain ⟨goal', hcopied⟩ := copied h
    have hgoal := placeOf_eq hout hd.links (locate_target_of_file hcopied.located)
    cases (hsettled.placeOf hout rfl).symm.trans hgoal
    refine ⟨⟨hd.links.trans hcopied.ways.link, hd.nested.copy hout h⟩, fun P hP => .inl ?_⟩
    refine hcopied.other P ?_
    rintro rfl
    exact houtside hP
  exact (save_rel hrefl htrans hdirs hcopy w).2 horderly

/-! ## From the start of a run to its release -/

/-- What the stages of a run may put into its work directory. -/
def Start.charter (b : Start) (root : Location) : Charter :=
  Pipeline.charter b.settings b.progress.subject.extension root (b.settings.enables · = true)

/-- The site of a run at its release: a trail of steps, and perhaps a saved program. -/
structure Led (host : Host) (b : Start) (root : Location) (w w₁ : World) (site₁ site : Site) :
    Prop where
  trail : Trail host (b.charter root) ⟨w₁, b.workspace⟩ site₁
  workspace : site.workspace = site₁.workspace
  calls : site.world.calls = site₁.world.calls
  saved : Orderly w.disk site₁.world.disk → Orderly w.disk site.world.disk ∧ ∀ P, root <+: P →
    site.world.disk.get? P = site₁.world.disk.get? P ∨
      w.disk.get? P = some .dir ∧ site₁.world.disk.get? P = none

section

variable {host : Host} {given : Settings} {base : Path} {w w₁ w' : World} {b : Start}
  {root source : Location} {site site₁ : Site} {r : Except Fault Report}
  {result : Except Fault (Progress × Option Path)}

/-- The stages of a run go by the steps of its charter. -/
theorem Begun.stages_trail (host : Host) (hbegun : Begun given base w w₁ b root source)
    (hmount : Mounts given) :
    Trail host (b.charter root) ⟨w₁, b.workspace⟩
      (runStages host b.settings (workStages b.settings) b.progress ⟨w₁, b.workspace⟩).2 := by
  have hon : ∀ stage ∈ workStages b.settings, b.settings.enables stage = true :=
    fun stage hstage => (List.mem_filter.mp hstage).2
  have hfollows : Follows host (b.charter root) root []
      (runStages host b.settings (workStages b.settings) b.progress) fun _ => True :=
    runStages_follows hbegun.rootNames (hmount.of_same hbegun.backend hbegun.recipe) _ _ hon
      b.progress rfl
  exact hfollows.rel ⟨w₁, b.workspace⟩ ⟨hbegun.rootPath, fun _ h => nomatch h⟩

/-- What the stages of a run leave is saved outside the work directory. -/
theorem Begun.led (hbegun : Begun given base w w₁ b root source) (hbase : base.isAbsolute = true)
    (hnested : w.disk.Nested) (hbuilt : BuiltIn given)
    (hout : Settings.Settles w.disk (anchor base given).outputPath)
    (hdir : Settings.Settles w.disk (anchor base given).workDir)
    (hwork : work host b.settings b.progress ⟨w₁, b.workspace⟩ = (result, site)) :
    ∃ site₁, Led host b root w w₁ site₁ site := by
  obtain ⟨-, hdirAbsolute, houtAbsolute⟩ := isAbsolute_anchor hbase given
  obtain ⟨root', goal, hroot', hgoal, houtside⟩ := Settings.not_prefix_of_outputProblems
    houtAbsolute hout hdirAbsolute hdir hbegun.accepted
  cases hbegun.acquired.place.symm.trans hroot'
  obtain ⟨goal', -, hsettled⟩ := hout.settled houtAbsolute
  cases hgoal.symm.trans (hsettled.placeOf houtAbsolute rfl)
  rw [← hbegun.output] at houtAbsolute hsettled
  obtain ⟨site₁, rfl, hsaved⟩ := work_cases hwork
  refine ⟨_, hbegun.stages_trail host hbuilt.mounts, ?_, ?_, ?_⟩
  · rcases hsaved with rfl | ⟨q, rfl⟩ <;> rfl
  · rcases hsaved with rfl | ⟨q, rfl⟩
    · rfl
    · exact (save_rel (R := fun _ _ => True) (fun _ => trivial) (fun _ _ => trivial)
        (fun _ _ _ => trivial) (fun _ _ _ _ => trivial) _).1
  · rcases hsaved with rfl | ⟨q, rfl⟩
    · exact fun horderly => ⟨horderly, fun _ _ => .inl rfl⟩
    · exact save_outside hnested houtAbsolute hsettled houtside q _

section

variable (hled : Led host b root w w₁ site₁ site)
  (htaken : Taken (anchor base given).workDir w.disk w₁.disk root) (hbuilt : BuiltIn b.settings)
  (hstraight : w.disk.Straight root) (hledger : b.workspace.ledger = .empty)
  (htools : Agrees host (b.charter root) root w.disk w₁.calls site₁.world.calls)
include hled htaken hbuilt hstraight hledger htools

/-- At its release a run has an orderly disk, and a ledger for its directory. -/
theorem Led.tidy : Tidy root w.disk site := by
  have hfirst : Tidy root w₁.disk ⟨w₁, b.workspace⟩ :=
    ⟨⟨.refl _, htaken.nested⟩, fun a ha => by rw [hledger] at ha; cases ha⟩
  have htidy := hfirst.trail (charter_in hbuilt _ root _) (htaken.links.straight hstraight)
    hled.trail htools
  refine ⟨(hled.saved ⟨htaken.links.trans htidy.links, htidy.nested⟩).1, ?_⟩
  rw [hled.workspace]
  exact htidy.within

/-- In a directory that was there before, the ledger then accounts for all that has changed. -/
theorem Led.accounted (hthere : ∀ P, P ≠ root ++ [Artifacts.lockFile] →
      w₁.disk.get? P = w.disk.get? P) :
    (∀ a ∈ site.workspace.ledger.artifacts, ∃ m, (∀ n ∈ m, IsName n) ∧ a.path = pathOf m ∧
      ((b.charter root).product m ∨ (b.charter root).directory m ∧
        (checkText (pathOf m).text = .ok () → w₁.disk.get? m = none))) ∧
    ∀ P, root <+: P → ¬ site.workspace.ledger.Covers P →
      site.world.disk.get? P = w₁.disk.get? P := by
  have hfirst : Accounted (b.charter root) root w₁.disk ⟨w₁, b.workspace⟩ :=
    ⟨⟨.refl _, htaken.nested⟩, fun a ha => (by rw [hledger] at ha; cases ha), fun _ _ _ => rfl⟩
  obtain ⟨id, c, x, hfile⟩ := htaken.file
  have haccounted := hfirst.trail (charter_in hbuilt _ root _) (htaken.links.straight hstraight)
    htaken.entered (fun k _ hnew hdir => ?_) hled.trail htools
  swap
  · by_cases e : k = root ++ [Artifacts.lockFile]
    · rw [e, hfile] at hdir
      cases hdir
    · rw [hthere k e, hnew] at hdir
      cases hdir
  rw [hled.workspace]
  refine ⟨haccounted.entered, fun P hP huncovered => ?_⟩
  have hframe := haccounted.frame P hP huncovered
  obtain ⟨-, hleft⟩ := hled.saved ⟨htaken.links.trans haccounted.links, haccounted.nested⟩
  rcases hleft P hP with e | ⟨hdir, hnone⟩
  · rw [e, hframe]
  · -- what was there before and is not covered is there still
    rw [hframe] at hnone
    by_cases e : P = root ++ [Artifacts.lockFile]
    · rw [e, hfile] at hnone
      cases hnone
    · rw [hthere P e, hdir] at hnone
      cases hnone

/-- The lock file is not among what the stages leave. -/
theorem Led.lock_uncovered (hthere : ∀ P, P ≠ root ++ [Artifacts.lockFile] →
      w₁.disk.get? P = w.disk.get? P) :
    ¬ site.workspace.ledger.Covers (root ++ [Artifacts.lockFile]) := by
  rintro ⟨a, ha, m, hm, hpath, hprefix⟩
  obtain ⟨k, hk, hpath', hkind⟩ := (hled.accounted htaken hbuilt hstraight hledger htools hthere).1 a ha
  obtain rfl := pathOf_injective hk hm (congrArg Path.parts (hpath'.symm.trans hpath))
  have htouched : ∃ stage m, k = root ++ m ∧
      Touches b.settings b.progress.subject.extension stage m := by
    rcases hkind with ⟨stage, m, -, hat, rfl⟩ | ⟨⟨stage, m, -, hat, rfl⟩, -⟩
    · exact ⟨stage, m, rfl, hat.touches⟩
    · exact ⟨stage, m, rfl, hat.touches⟩
  obtain ⟨stage, m, rfl, htouches⟩ := htouched
  exact htouches.not_lock hbuilt ((List.prefix_append_right_inj root).mp hprefix)

/-- A release without a failure restores a directory that was there before. -/
theorem Led.restored (hthere : ∀ P, P ≠ root ++ [Artifacts.lockFile] →
      w₁.disk.get? P = w.disk.get? P) {lock : HeldLock}
    (hreport : site.workspace.report = none) (hlock : site.workspace.lock = some lock)
    (hpath : lock.path = pathOf (root ++ [Artifacts.lockFile]))
    (hcreated : site.workspace.createdRoot = false)
    (hclean : (Workspace.release site).1.failed = []) :
    Restored b.settings b.progress.subject.extension root site.workspace.ledger w.disk
      (Workspace.release site).2.world.disk := by
  have htidy := hled.tidy htaken hbuilt hstraight hledger htools
  obtain ⟨hentered, hframe⟩ := hled.accounted htaken hbuilt hstraight hledger htools hthere
  have huncovered := hled.lock_uncovered htaken hbuilt hstraight hledger htools hthere
  obtain ⟨id, c, x, hfile⟩ := htaken.file
  have hlocked := hframe _ (List.prefix_append _ _) huncovered
  have hhandy : site.world.disk.Handy (root ++ [Artifacts.lockFile]) :=
    ⟨htaken.lock.check, htidy.nested.reached (hlocked.trans hfile) htaken.lock.reached.names⟩
  have hleft := release_clean hreport (htidy.links.straight hstraight) htidy.nested hclean
    hlock hpath htidy.within hcreated hhandy ⟨id, c, x, hlocked.trans hfile⟩ huncovered
  have hswept := release_swept hreport (htidy.links.straight hstraight) htidy.nested hclean
    htidy.within
  refine ⟨fun l hl hne n => ?_, fun a ha => ?_, ?_⟩
  · rw [hleft]
    constructor
    · rintro ⟨-, hcovers, hn⟩
      exact ⟨by rwa [← hthere l hne, ← hframe l hl hcovers], hcovers⟩
    · rintro ⟨hn, hcovers⟩
      exact ⟨hne, hcovers, by rwa [hframe l hl hcovers, hthere l hne]⟩
  · obtain ⟨m, hm, hpath, ⟨stage, k, hon, hat, rfl⟩ | ⟨⟨stage, k, hon, hat, rfl⟩, hnew⟩⟩ := hentered a ha
    · exact .inl ⟨stage, k, hon, hat, hpath⟩
    · obtain ⟨name, hname, rfl⟩ := hat.name hbuilt
      have hnone := hnew (hpath ▸ hswept.checked a ha)
      refine .inr ⟨name, hname, hpath, ?_⟩
      rw [← hthere _ fun e => ?_, hnone]
      rw [e, hfile] at hnone
      cases hnone
  · by_contra hne
    obtain ⟨n, hn⟩ := Option.ne_none_iff_exists'.mp hne
    exact ((hleft _ n).mp hn).1 rfl

end

/-! ## Whole runs -/

variable (hbase : base.isAbsolute = true) (hd : w.disk.Numbered) (hnested : w.disk.Nested)
  (hbuilt : BuiltIn given) (hroot : w.disk.placeOf (anchor base given).workDir = some root)
  (hstraight : w.disk.Straight root)
  (hout : Settings.Settles w.disk (anchor base given).outputPath)
  (hdir : Settings.Settles w.disk (anchor base given).workDir)
include hbase hd hnested hbuilt hroot hstraight hout hdir

end

/-! ### Work directories that are shared -/

/-- A work directory that is there, with a file in it. -/
def sharedDisk : Disk where
  entries :=
    (["w"], .dir) :: (["w", "user.txt"], .file 2 "mine\n".toUTF8 false) :: sampleDisk.entries
  cwd := []
  nextId := 3
  locked := []

/-- One reducer, an output and a work directory. -/
def sharing (output workDir : Path) : Settings :=
  { reducingTo output with workDir := workDir }

def sharedRun (output workDir : Path) : Except Fault Report × World :=
  run sampleHost (sharing output workDir) ⟨"/"⟩ (.ofDisk sharedDisk)

/-- What the report of a run says that could not be removed. -/
def leftovers (r : Except Fault Report) : Option (List Leftover) :=
  (r.toOption.bind Report.cleanup).map CleanupReport.failed

/-- The reducer works below a directory that the run has made. -/
theorem agrees_sampleHost {calls : List Call}
    (h : ∀ c ∈ calls, c.disk.get? ["w", "temp"] = some .dir ∧
      c.disk.locate .file (pathOf ["w", "temp", "autoPieOut.c"]) =
        .ok ["w", "temp", "autoPieOut.c"])
    (c : Charter) (first : List Call) : Agrees sampleHost c ["w"] sharedDisk first calls := by
  intro earlier call _ hlast products _
  have hmem : call ∈ calls := hlast.subset (List.mem_append_right _ List.mem_cons_self)
  obtain ⟨hdir, hlocate⟩ := h call hmem
  have hsame : Agreed ["w"] sharedDisk products call.disk call.disk :=
    ⟨.refl _, fun h => h, fun P _ hne => absurd rfl hne⟩
  simp only [sampleHost]
  split
  · rename_i d hwrite
    refine ⟨(ways_write hwrite).link, fun h => h.write (by decide) hwrite, fun P _ hchanged => ?_⟩
    obtain ⟨l, n, hl, -, halters⟩ := write_ok hwrite
    cases hlocate.symm.trans hl
    obtain rfl : P = ["w", "temp", "autoPieOut.c"] := by
      by_contra hne
      exact hchanged (halters.other hne)
    exact .inr ⟨["w", "temp"], by decide, by decide, hdir, by decide, by decide⟩
  · exact hsame

end Whittle.Pipeline
