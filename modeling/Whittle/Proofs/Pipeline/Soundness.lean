import Mathlib.Data.List.Nodup
import Whittle.Proofs.Pipeline.Endings
import Whittle.Proofs.Pipeline.Start

/-!
# The program between the stages

The current program is a file that no later stage touches: it lies outside the work directory, or it
is the product that an earlier stage adopted. So whatever a stage does and wherever it fails, the
program stays a text with the failure line among its lines (`Sound`, `Sound.step`), and
`runStages_sound` finds it so before and after every stage of a run.
-/

namespace Whittle.Pipeline

open Text Disk

theorem isFile_of_readText {d : Disk} {p : Path} {text : String} (h : d.readText p = .ok text)
    (hl : 1 ≤ lineCount text) : d.isFile p = true := by
  obtain ⟨b, hread, ht⟩ := readText_eq_ok h
  have hne := not_empty_of_lineCount ht hl
  unfold Disk.read at hread
  unfold isFile
  split at hread
  · rename_i hstat
    rw [hstat]
    rfl
  · cases hread
    exact absurd rfl hne
  · cases hread
  · cases hread

/-! ## The invariant -/

/-- The program is a text with the failure line among its lines, at a place that no stage to come
touches. -/
structure Sound (s : Settings) (first : Subject) (l : Location) (rest : List Stage) (p : Progress)
    (site : Site) : Prop where
  root : site.workspace.root = pathOf l
  linkless : site.world.disk.Linkless
  place : ∃ m, (∀ n ∈ m, IsName n) ∧ p.subject.source = pathOf m ∧
    ∀ stage ∈ rest, ∀ k, Touches s p.subject.extension stage k → ¬ l ++ k <+: m
  text : ∃ text, site.world.disk.readText p.subject.source = .ok text ∧
    1 ≤ p.subject.failureLine ∧ p.subject.failureLine ≤ lineCount text
  language : p.subject.language = first.language
  arguments : p.subject.arguments = first.arguments

/-- The tools that a stage calls leave the bytes of the current program alone, and make no links. -/
def Sparing (host : Host) (s : Settings) (stage : Stage) (p : Progress) (site : Site) : Prop :=
  ∀ made, (runStage host s stage p site).2.world.calls = site.world.calls ++ made →
    Answered host (Spares p.subject.source) site.world.calls made

/-- The tools of all stages of a run leave the program alone that is current when they are called. -/
def SparesCurrent (host : Host) (s : Settings) (p₀ : Progress) (site₀ : Site) : Prop :=
  ∀ done stage rest p site, workStages s = done ++ stage :: rest →
    runStages host s done p₀ site₀ = (.ok p, site) → Sparing host s stage p site

theorem isName_product {stage : Stage} {front : String} (h : productFront stage = some front)
    (subject : Subject) : IsName (front ++ subject.extension) := by
  have hfront : IsFront front := by
    cases stage <;> cases h <;> decide
  exact (hfront.append (lacks_extension subject)).isName

/-- The product of a stage lies where no other stage works. -/
theorem product_untouched {s : Settings} (hs : BuiltIn s) {stage : Stage} {front : String}
    (hname : productFront stage = some front) {rest : List Stage} (hfresh : stage ∉ rest)
    (l : Location) (ext : String) :
    ∀ later ∈ rest, ∀ k, Touches s ext later k → ¬ l ++ k <+: l ++ [front ++ ext] := by
  intro later hlater k hk hprefix
  have hne : later ≠ stage := by
    rintro rfl
    exact hfresh hlater
  exact hk.not_prefix hs hne hname ((List.prefix_append_right_inj l).mp hprefix)

section

variable {host : Host} {s : Settings} (hs : BuiltIn s) {first : Subject} {l : Location}
  (hl : ∀ n ∈ l, IsName n)
include hs hl

/-- A stage ends, and leaves a sound program to the stages behind it. If it has not adopted one, the
bytes of the program are those it was given. -/
theorem Sound.step {stage : Stage} {rest : List Stage} {p : Progress} {site : Site}
    (h : Sound s first l (stage :: rest) p site) (hfresh : stage ∉ rest)
    (hsparing : Sparing host s stage p site) :
    ∃ p' site', runStage host s stage p site = (.ok p', site') ∧
      Sound s first l rest p' site' ∧ Ends host s l stage p p' site site' ∧
      Spares p.subject.source site.world.disk site'.world.disk := by
  obtain ⟨m, hm, hsource, hplace⟩ := h.place
  obtain ⟨text, htext, hpos, hle⟩ := h.text
  have hp := permits_spares hm
  rw [← hsource] at hp
  have htouch : ∀ k, Touches s p.subject.extension stage k → ¬ l ++ k <+: m :=
    hplace stage List.mem_cons_self
  obtain ⟨p', site', hrun, hends⟩ :=
    runStage_ends hp hl h.root hs.mounts h.linkless hpos htouch hsparing
  obtain ⟨hroot', ⟨made, hmade, hkept⟩, -⟩ :=
    (runStage_stays hp hl hs.mounts p stage htouch).of_run h.root hrun
  have hspares : Spares p.subject.source site.world.disk site'.world.disk :=
    hkept (hsparing made (by rw [hrun]; exact hmade))
  obtain ⟨hlinkless', hbytes⟩ := hspares h.linkless
  refine ⟨p', site', hrun, ?_, hends, hspares⟩
  cases hends with
  | kept hsubject new hrecords hplain =>
    refine ⟨hroot', hlinkless', ?_, ?_, ?_, ?_⟩
    · rw [hsubject]
      exact ⟨m, hm, hsource, fun later hlater => hplace later (List.mem_cons_of_mem _ hlater)⟩
    · obtain ⟨b, hread, hutf8⟩ := readText_eq_ok htext
      rw [hsubject]
      exact ⟨text, readText_of_read (hbytes b hread) hutf8, hpos, hle⟩
    · rw [hsubject, h.language]
    · rw [hsubject, h.arguments]
  | adopted front detail program hname htool hrecords hadoption =>
    obtain ⟨⟨text', line, htext', hnext, hpos', hle'⟩, -⟩ := hadoption
    have hproduct : ∀ n ∈ [front ++ p.subject.extension], IsName n := by
      simpa using isName_product hname p.subject
    refine ⟨hroot', hlinkless', ?_, ?_, ?_, ?_⟩
    · rw [hnext]
      exact ⟨_, List.forall_mem_append.mpr ⟨hl, hproduct⟩, rfl,
        product_untouched hs hname hfresh l p.subject.extension⟩
    · rw [hnext]
      exact ⟨text', htext', hpos', hle'⟩
    · rw [hnext]
      exact h.language
    · rw [hnext]
      exact h.arguments

end

/-! ## Runs -/

section

variable {host : Host} {s : Settings} {p₀ p p' : Progress} {site₀ site site' : Site}

theorem runStages_snoc {done : List Stage} {stage : Stage}
    (h : runStages host s done p₀ site₀ = (.ok p, site))
    (hstage : runStage host s stage p site = (.ok p', site')) :
    runStages host s (done ++ [stage]) p₀ site₀ = (.ok p', site') := by
  induction done generalizing p₀ site₀ with
  | nil =>
    cases h
    exact bind_of_ok hstage
  | cons first done ih =>
    obtain ⟨p₁, site₁, hfirst, hrest⟩ := bind_eq_ok h
    exact (bind_of_ok hfirst).trans (ih hrest)

theorem nodup_workStages (s : Settings) : (workStages s).Nodup :=
  List.Nodup.filter _ (by decide)

theorem not_mem_of_workStages {done rest : List Stage} {stage : Stage}
    (h : workStages s = done ++ stage :: rest) : stage ∉ rest := by
  have hnodup := nodup_workStages s
  rw [h] at hnodup
  exact (List.nodup_cons.mp (List.nodup_append.mp hnodup).2.1).1

/-- The stages of a run never fail, and between any two of them the program is sound. What every
single stage keeps besides is kept by the run. -/
theorem runStages_sound (hs : BuiltIn s) {first : Subject} {l : Location}
    (hl : ∀ n ∈ l, IsName n) (h₀ : Sound s first l (workStages s) p₀ site₀)
    (hspares : SparesCurrent host s p₀ site₀) {I : Progress → Site → Prop} (hI₀ : I p₀ site₀)
    (hI : ∀ {done stage rest p site p' site'}, workStages s = done ++ stage :: rest →
      runStages host s done p₀ site₀ = (.ok p, site) → Sound s first l (stage :: rest) p site →
      runStage host s stage p site = (.ok p', site') → Ends host s l stage p p' site site' →
      Spares p.subject.source site.world.disk site'.world.disk → I p site → I p' site')
    {done rest : List Stage} (hstages : workStages s = done ++ rest) :
    ∃ p site, runStages host s done p₀ site₀ = (.ok p, site) ∧ Sound s first l rest p site ∧
      I p site := by
  induction done using List.reverseRecOn generalizing rest with
  | nil =>
    rw [hstages] at h₀
    exact ⟨p₀, site₀, rfl, h₀, hI₀⟩
  | append_singleton done stage ih =>
    rw [List.append_assoc, List.singleton_append] at hstages
    obtain ⟨p, site, hrun, hsound, hinv⟩ := ih hstages
    obtain ⟨p', site', hstage, hsound', hends, hkept⟩ := hsound.step hs hl
      (not_mem_of_workStages hstages) (hspares done stage rest p site hstages hrun)
    exact ⟨p', site', runStages_snoc hrun hstage, hsound',
      hI hstages hrun hsound hstage hends hkept hinv⟩

end

theorem Begun.builtIn {given : Settings} {base : Path} {w w' : World} {b : Start}
    {root source : Location} (h : Begun given base w w' b root source) (hs : BuiltIn given) :
    BuiltIn b.settings := by
  intro hcontainer
  rw [h.containers.1, h.containers.2]
  exact hs (h.backend ▸ hcontainer)

theorem Started.not_prefix {given : Settings} {base : Path} {w w' : World} {b : Start}
    {root source : Location} (h : Started given base w w' b root source)
    (houtside : b.settings.sourceFile.startsWith b.workspace.root = false) :
    ¬ root <+: source := by
  intro hprefix
  rw [h.rootPath, h.sourcePath, startsWith_pathOf h.sourceNames h.rootNames hprefix] at houtside
  cases houtside

/-- The program that a run is given is sound when the stages begin. -/
theorem Started.sound {given : Settings} {base : Path} {w w' : World} {b : Start}
    {root source : Location} (h : Started given base w w' b root source)
    (houtside : b.settings.sourceFile.startsWith b.workspace.root = false) :
    Sound b.settings b.progress.subject root (workStages b.settings) b.progress
      ⟨w', b.workspace⟩ := by
  have hout := h.not_prefix houtside
  obtain ⟨language, -, hsubject⟩ := h.subject
  obtain ⟨text, htext, hpos, hle⟩ := h.readable
  obtain ⟨b, hread, hutf8⟩ := readText_eq_ok htext
  refine ⟨h.rootPath, h.linkless, ?_, ?_, rfl, rfl⟩
  · rw [hsubject]
    refine ⟨source, h.sourceNames, h.sourcePath, fun _ _ k _ hprefix => hout ?_⟩
    exact (List.prefix_append root k).trans hprefix
  · rw [hsubject]
    exact ⟨text, readText_of_read (h.kept hout b hread) hutf8, hpos, hle⟩

/-- Whenever a run is between two stages, the current program is a text file with the failure line
among its lines, in the language and with the arguments that the run began with. -/
theorem run_keeps_program {host : Host} {given : Settings} {base : Path} {w w' : World} {b : Start}
    (hbase : base.isAbsolute = true) (hd : w.disk.Plain)
    (hstart : start host given base w = (.ok b, w'))
    (houtside : b.settings.sourceFile.startsWith b.workspace.root = false) (hs : BuiltIn given)
    (hspares : SparesCurrent host b.settings b.progress ⟨w', b.workspace⟩) :
    ∃ language, b.progress.subject = Subject.initial b.settings language ∧
      ∀ done rest, workStages b.settings = done ++ rest →
        ∃ p site text,
          runStages host b.settings done b.progress ⟨w', b.workspace⟩ = (.ok p, site) ∧
          site.world.disk.isFile p.subject.source = true ∧
          site.world.disk.readText p.subject.source = .ok text ∧
          1 ≤ p.subject.failureLine ∧ p.subject.failureLine ≤ lineCount text ∧
          p.subject.language = (Subject.initial b.settings language).language ∧
          p.subject.arguments = (Subject.initial b.settings language).arguments := by
  obtain ⟨root, source, hstarted⟩ := start_eq_ok hbase hd hstart
  obtain ⟨language, -, hsubject⟩ := hstarted.subject
  have hfirst := hstarted.sound houtside
  rw [hsubject] at hfirst
  refine ⟨language, hsubject, fun done rest hstages => ?_⟩
  obtain ⟨p, site, hrun, hsound, -⟩ :=
    runStages_sound (I := fun _ _ => True) (hstarted.builtIn hs) hstarted.rootNames hfirst
      hspares trivial (fun _ _ _ _ _ _ _ => trivial) hstages
  obtain ⟨text, htext, hpos, hle⟩ := hsound.text
  exact ⟨p, site, text, hrun, isFile_of_readText htext (hpos.trans hle), htext, hpos, hle,
    hsound.language, hsound.arguments⟩

/-! ### A run with one reducer -/

/-- A program of one line, and a reducer. -/
def sampleDisk : Disk where
  entries :=
    [(["in"], .dir), (["in", "a.c"], .file 0 "int x;\n".toUTF8 false), (["bin"], .dir),
     (["bin", "red"], .file 1 ByteArray.empty true)]
  cwd := []
  nextId := 2
  locked := []

def sampleSettings : Settings where
  sourceFile := ⟨"/in/a.c"⟩
  line := 1
  staticSlice := false
  dynamicSlice := false
  delta := false
  backend := .local
  workDir := ⟨"/w"⟩
  outputFile := some ⟨"/o.c"⟩
  tools := { statementReducer := ⟨"/bin/red"⟩ }

/-- Every call leaves a program where reducers leave theirs. -/
def sampleHost : Host where
  launch _ call :=
    match call.disk.write (pathOf ["w", "temp", "autoPieOut.c"]) "int y;\n".toUTF8 false with
    | .ok d => ⟨[], .ok 0, d⟩
    | .error _ => ⟨[], .ok 1, call.disk⟩
  searchPath := none
  freshId n := natText n
  processId := 1
  now := (0, 0)

def sampleStart : Except Fault Start × World :=
  start sampleHost sampleSettings ⟨"/"⟩ (.ofDisk sampleDisk)

theorem plain_sampleDisk : sampleDisk.Plain :=
  plain_of_entries (by decide) (by decide) (by decide)

/-- The tools touch their product only. -/
theorem answered_of_permits {T : Disk → Disk → Prop} {free : Location → Prop} (hp : Permits T free)
    (hfree : free ["w", "temp", "autoPieOut.c"]) (made : List Call) :
    ∀ before, Answered sampleHost T before made := by
  induction made with
  | nil => exact fun _ => trivial
  | cons call made ih =>
    refine fun before => ⟨?_, ih _⟩
    simp only [sampleHost]
    split
    · rename_i d hd
      exact hp.write hfree (by decide) hd
    · exact hp.refl _

/-- The tools spare what is not at their product or below. -/
theorem answered_sampleHost {l : Location} (hl : ∀ n ∈ l, IsName n)
    (hfree : ¬ ["w", "temp", "autoPieOut.c"] <+: l) (made : List Call) (before : List Call) :
    Answered sampleHost (Spares (pathOf l)) before made :=
  answered_of_permits (permits_spares hl) hfree made before

theorem sampleStart_facts : sampleStart.1.toOption.map (fun b =>
    (b.settings.sourceFile.startsWith b.workspace.root, workStages b.settings,
      b.progress.subject.source)) =
    some (false, [.statementReduce], pathOf ["in", "a.c"]) := by decide +kernel

theorem sampleStart_eq_ok : ∃ b w', sampleStart = (.ok b, w') ∧
    b.settings.sourceFile.startsWith b.workspace.root = false ∧
    SparesCurrent sampleHost b.settings b.progress ⟨w', b.workspace⟩ := by
  have hfacts := sampleStart_facts
  cases h : sampleStart with
  | mk r w' =>
    rw [h] at hfacts
    cases r with
    | error e => cases hfacts
    | ok b =>
      simp only [Except.toOption, Option.map_some, Option.some.injEq, Prod.mk.injEq] at hfacts
      obtain ⟨houtside, hstages, hsource⟩ := hfacts
      refine ⟨b, w', rfl, houtside, fun done stage rest p site hsplit hrun made _ => ?_⟩
      rw [hstages] at hsplit
      cases done with
      | nil =>
        cases hrun
        rw [hsource]
        exact answered_sampleHost (by decide) (by decide) made _
      | cons first done => simp at hsplit

theorem run_keeps_sampleProgram : ∃ b w', sampleStart = (.ok b, w') ∧
    ∃ language, b.progress.subject = Subject.initial b.settings language ∧
      ∀ done rest, workStages b.settings = done ++ rest →
        ∃ p site text,
          runStages sampleHost b.settings done b.progress ⟨w', b.workspace⟩ = (.ok p, site) ∧
          site.world.disk.isFile p.subject.source = true ∧
          site.world.disk.readText p.subject.source = .ok text ∧
          1 ≤ p.subject.failureLine ∧ p.subject.failureLine ≤ lineCount text ∧
          p.subject.language = (Subject.initial b.settings language).language ∧
          p.subject.arguments = (Subject.initial b.settings language).arguments := by
  obtain ⟨b, w', hstart, houtside, hspares⟩ := sampleStart_eq_ok
  exact ⟨b, w', hstart, run_keeps_program (by decide) plain_sampleDisk hstart houtside
    (fun h => nomatch h) hspares⟩

end Whittle.Pipeline
