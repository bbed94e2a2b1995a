import Whittle.Proofs.Pipeline.Records

/-!
# Where the bytes of the program come from

The records of a run say which stage adopted a program last. `run_keeps_bytes` says that when the
program is saved its bytes are those that the last call of this stage had left in the product, or
those the run was given: nothing that a later stage did, or left half done, has changed them.
-/

namespace Whittle.Pipeline

open Text Disk

/-- The stage of the last record that says that a program was adopted. -/
def lastAdopted (records : List StageRecord) : Option Stage :=
  (records.reverse.find? fun r => r.outcome = .adopted).map StageRecord.stage

theorem lastAdopted_append {records new : List StageRecord} (h : ∀ r ∈ new, r.outcome ≠ .adopted) :
    lastAdopted (records ++ new) = lastAdopted records :=
  congrArg (Option.map StageRecord.stage) (lastAdoption_append records h)

theorem lastAdopted_snoc (records : List StageRecord) (stage : Stage) (detail : String) :
    lastAdopted (records ++ [⟨stage, .adopted, detail⟩]) = some stage :=
  congrArg (Option.map StageRecord.stage) (lastAdoption_concat records rfl)

theorem lastAdopted_eq_none {records : List StageRecord} (h : ∀ r ∈ records, r.outcome ≠ .adopted) :
    lastAdopted records = none := @lastAdopted_append [] records h

/-- In the run from `p₀` the last call of a stage was of its tool, and left `content` in the
product. -/
def LeftBy (host : Host) (s : Settings) (p₀ : Progress) (site₀ : Site) (stage : Stage)
    (content : ByteArray) : Prop :=
  ∃ done rest p site p' site' made call,
    workStages s = done ++ stage :: rest ∧
    runStages host s done p₀ site₀ = (.ok p, site) ∧
    runStage host s stage p site = (.ok p', site') ∧
    site'.world.calls = site.world.calls ++ made ++ [call] ∧
    toolOf s stage = some call.program ∧
    (host.launch (site.world.calls ++ made) call).disk.read (site.workspace.path
      (String.intercalate "/" (leftAt p.subject.extension stage))) = .ok content

/-- The program has the bytes that the stage which adopted it had left by its tool, or those of
`original`. -/
def Descends (host : Host) (s : Settings) (p₀ : Progress) (site₀ : Site) (original : ByteArray)
    (p : Progress) (site : Site) : Prop :=
  ∃ content, site.world.disk.read p.subject.source = .ok content ∧
    match lastAdopted p.records with
    | none => content = original
    | some stage => LeftBy host s p₀ site₀ stage content

theorem path_leftAt {l : Location} (hl : ∀ n ∈ l, IsName n) {w : Workspace}
    (hw : w.root = pathOf l) (subject : Subject) (stage : Stage) :
    w.path (String.intercalate "/" (leftAt subject.extension stage)) =
      pathOf (l ++ leftAt subject.extension stage) := by
  cases stage with
  | graphReduce => exact Workspace.path_eq hl rfl (names_reduced subject) hw
  | statementReduce => exact Workspace.path_eq hl rfl (names_reduced subject) hw
  | _ => exact Workspace.path_eq hl rfl (names_extract subject) hw

section

variable {host : Host} {s : Settings} {l : Location} (hl : ∀ n ∈ l, IsName n) {first : Subject}
  {p₀ p p' : Progress} {site₀ site site' : Site} {done rest : List Stage} {stage : Stage}
include hl

/-- A stage passes on the bytes it was given, with where they come from, or its own. -/
theorem Descends.step {original : ByteArray} (hstages : workStages s = done ++ stage :: rest)
    (hrun : runStages host s done p₀ site₀ = (.ok p, site))
    (hsound : Sound s first l (stage :: rest) p site)
    (hstage : runStage host s stage p site = (.ok p', site'))
    (hends : Ends host s l stage p p' site site')
    (hspares : Spares p.subject.source site.world.disk site'.world.disk)
    (h : Descends host s p₀ site₀ original p site) : Descends host s p₀ site₀ original p' site' := by
  obtain ⟨content, hread, horigin⟩ := h
  cases hends with
  | kept hsubject new hrecords hplain =>
    refine ⟨content, ?_, ?_⟩
    · rw [hsubject]
      exact (hspares hsound.linkless).2 content hread
    · rw [hrecords, lastAdopted_append hplain]
      exact horigin
  | adopted front detail program hname htool hrecords hadoption =>
    obtain ⟨⟨text, line, -, hnext, -, -⟩, made, call, left, hcalls, hprogram, hleft, hproduct⟩ :=
      hadoption
    refine ⟨left, ?_, ?_⟩
    · rw [hnext]
      exact hproduct
    · rw [hrecords, lastAdopted_snoc]
      refine ⟨done, rest, p, site, p', site', made, call, hstages, hrun, hstage, hcalls, ?_, ?_⟩
      · rw [htool, hprogram]
      · rw [path_leftAt hl hsound.root]
        exact hleft

end

/-- When a run saves the program, the program has the bytes that the tool of the stage which adopted
one last had left in its product when it returned, or those the run was given if no stage did. -/
theorem run_keeps_bytes {host : Host} {given : Settings} {base : Path} {w w' : World} {b : Start}
    (hbase : base.isAbsolute = true) (hd : w.disk.Plain)
    (hstart : start host given base w = (.ok b, w'))
    (houtside : b.settings.sourceFile.startsWith b.workspace.root = false) (hs : BuiltIn given)
    (hspares : SparesCurrent host b.settings b.progress ⟨w', b.workspace⟩) :
    ∃ p site content,
      runStages host b.settings (workStages b.settings) b.progress ⟨w', b.workspace⟩ =
        (.ok p, site) ∧
      site.world.disk.read p.subject.source = .ok content ∧
      match lastAdopted p.records with
      | none => w.disk.read (anchor base given).sourceFile = .ok content
      | some stage => LeftBy host b.settings b.progress ⟨w', b.workspace⟩ stage content := by
  obtain ⟨root, source, hstarted⟩ := start_eq_ok hbase hd hstart
  obtain ⟨text, htext, -, -⟩ := hstarted.readable
  obtain ⟨original, horiginal, -⟩ := readText_eq_ok htext
  have hsource : b.progress.subject.source = b.settings.sourceFile := by
    obtain ⟨language, -, hsubject⟩ := hstarted.subject
    rw [hsubject]
    rfl
  have hfirst : Descends host b.settings b.progress ⟨w', b.workspace⟩ original b.progress
      ⟨w', b.workspace⟩ := by
    refine ⟨original, ?_, ?_⟩
    · rw [hsource]
      exact hstarted.kept (hstarted.not_prefix houtside) original horiginal
    · rw [lastAdopted_eq_none hstarted.records]
  obtain ⟨p, site, hrun, -, content, hread, horigin⟩ :=
    runStages_sound (hstarted.builtIn hs) hstarted.rootNames (hstarted.sound houtside) hspares
      hfirst (Descends.step hstarted.rootNames) (List.append_nil _).symm
  refine ⟨p, site, content, hrun, hread, ?_⟩
  cases hlast : lastAdopted p.records with
  | none =>
    rw [hlast] at horigin
    rw [horigin, ← hstarted.original]
    exact horiginal
  | some stage =>
    rw [hlast] at horigin
    exact horigin

theorem lastAdopted_sample {b : Start} {w' : World} {p : Progress} {site : Site}
    (hstart : sampleStart = (.ok b, w'))
    (hrun : runStages sampleHost b.settings (workStages b.settings) b.progress
      ⟨w', b.workspace⟩ = (.ok p, site)) : lastAdopted p.records = some .statementReduce := by
  have h : (sampleStart.1.toOption.bind fun b =>
      (runStages sampleHost b.settings (workStages b.settings) b.progress
        ⟨sampleStart.2, b.workspace⟩).1.toOption.bind fun p => lastAdopted p.records) =
      some .statementReduce := by decide +kernel
  rw [hstart] at h
  simp only [Except.toOption, Option.bind_some] at h
  rw [hrun] at h
  exact h

theorem run_keeps_sampleBytes : ∃ b w', sampleStart = (.ok b, w') ∧
    ∃ p site content,
      runStages sampleHost b.settings (workStages b.settings) b.progress ⟨w', b.workspace⟩ =
        (.ok p, site) ∧
      site.world.disk.read p.subject.source = .ok content ∧
      LeftBy sampleHost b.settings b.progress ⟨w', b.workspace⟩ .statementReduce content := by
  obtain ⟨b, w', hstart, houtside, hspares⟩ := sampleStart_eq_ok
  obtain ⟨p, site, content, hrun, hread, horigin⟩ :=
    run_keeps_bytes (by decide) plain_sampleDisk hstart houtside (fun h => nomatch h) hspares
  rw [lastAdopted_sample hstart hrun] at horigin
  exact ⟨b, w', hstart, p, site, content, hrun, hread, horigin⟩

end Whittle.Pipeline
