import Whittle.Proofs.Pipeline.Concord
import Whittle.Proofs.Pipeline.Gate
import Whittle.Proofs.Pipeline.Restoring
import Whittle.Proofs.Workspace.Remains

/-!
# Files from earlier runs

Two disks may differ in files that earlier runs have left in a work directory (`StaleIn`). Runs on
them report the same, call the same tools and save the same (`run_ignores_stale`): whatever a stage
reads was removed or written over before. Programs are looked up before any stage, so a stale file
that is found as a program is called (`run_calls_stale`).
-/

namespace Whittle

open Disk

namespace Disk

/-- A place in a directory where a stale file may stand: not the directory itself, and none that
stages make in it. -/
structure StaleAt (root P : Location) : Prop where
  inside : root <+: P
  apart : P ≠ root
  dirs : ∀ name ∈ ["temp", "dg-data", "giri-data"], P ≠ root ++ [name]

/-- Disks without links that differ in nothing but files in a directory. -/
structure StaleIn (root : Location) (d d' : Disk) : Prop where
  nested : d.Nested
  nested' : d'.Nested
  same : ∀ P, Like (d.get? P) (d'.get? P) ∨ StaleAt root P ∧ d.Free P ∧ d'.Free P

/-- The places at which two disks differ. -/
def unlike (d d' : Disk) : Set Location := {P | ¬ Like (d.get? P) (d'.get? P)}

namespace StaleIn

variable {root : Location} {d d' : Disk} (h : StaleIn root d d')
include h

theorem stale {P : Location} (hP : P ∈ unlike d d') : StaleAt root P ∧ d.Free P ∧ d'.Free P :=
  (h.same P).resolve_left hP

theorem alike : Alike (unlike d d') ∅ d d' where
  nested := h.nested
  nested' := h.nested'
  apart _ hP := not_not.mp hP
  fresh _ hm := absurd hm (Set.notMem_empty _)
  rest P := (h.same P).imp_right And.right

/-- What a path leads to outside the directory, and the directory itself, is found on both disks. -/
theorem stat {p : Path} (hp : p.isAbsolute = true) {l : Location} {n : Node}
    (hl : ¬ StaleAt root l) (hstat : d.stat p = .ok (l, n)) : ∃ n', d'.stat p = .ok (l, n') ∧
      Like (some n) (some n') := by
  have hdirs : ∀ P ∈ unlike d d', d.get? P ≠ some .dir := fun P hP => (h.stale hP).2.1.not_dir
  have hlocate := (stat_eq_ok hstat).1
  have hopen : Open (unlike d d') p := open_of_locate h.nested h.alike.linkless.1 hp hdirs hlocate
  have hgoal := Alike.goal_of_locate hopen h.alike.linkless.1 hlocate
  have hknown : Known (unlike d d') ∅ p :=
    ⟨hopen, fun hmem => absurd (h.stale (hgoal ▸ hmem)).1 hl⟩
  have hfound := h.alike.stat hknown
  rw [hstat] at hfound
  generalize d'.stat p = r at hfound
  cases hfound with
  | dir => exact ⟨_, rfl, .dir⟩
  | sink => exact ⟨_, rfl, .sink⟩
  | file l id id' content x => exact ⟨_, rfl, .file id id' content x⟩

end StaleIn

end Disk

namespace Pipeline

open Text Disk

/-! ## The start of both runs -/

section

variable {host : Host} {given : Settings} {base : Path} {w w' : World} {b : Start}

/-- The settings and the first records of a run are made of the settings that it is given, the
programs that it finds and the place of its source. -/
theorem start_made (h : start host given base w = (.ok b, w')) :
    ∃ language source, Language.ofPath (prepare host w.disk base given).sourceFile = some language ∧
      w.disk.canonical (anchor base given).sourceFile = .ok source ∧
      b.settings = { prepare host w.disk base given with sourceFile := source } ∧
      b.progress = ⟨Subject.initial b.settings language, [],
        [⟨.init, .completed, (prepare host w.disk base given).sourceFile.text ++ " line " ++
          natText (prepare host w.disk base given).line⟩,
          ⟨.validate, .completed, "language " ++ language.title⟩] ++ skippedRecords b.settings⟩ := by
  obtain ⟨d, w₁, hget, h⟩ := bind_eq_ok h
  cases hget
  obtain ⟨language, w₂, hvalidate, h⟩ := bind_eq_ok h
  have hdisk := (Settings.validate_world hvalidate).1
  obtain ⟨hlanguage, -, -⟩ := Settings.validate_eq_ok hvalidate
  obtain ⟨source, w₃, hask, h⟩ := bind_eq_ok h
  obtain ⟨hcanonical, rfl⟩ := Action.ask_eq_ok hask
  obtain ⟨workspace, w₄, hacquire, h⟩ := bind_eq_ok h
  obtain ⟨rfl, rfl⟩ := pure_eq_ok h
  rw [hdisk] at hcanonical
  exact ⟨language, source, hlanguage, hcanonical, rfl, rfl⟩

/-- In a work directory that is there a run begins by writing the lock file, and nothing else. -/
structure Entering (root : Location) (d d' : Disk) : Prop where
  nested : d'.Nested
  other : ∀ P, P ≠ root ++ [Artifacts.lockFile] → d'.get? P = d.get? P
  lock : ∃ id content x, d'.get? (root ++ [Artifacts.lockFile]) = some (.file id content x)
  not_dir : d.get? (root ++ [Artifacts.lockFile]) ≠ some .dir

theorem start_enters {root : Location} (hbase : base.isAbsolute = true) (hd : w.disk.Numbered)
    (hnested : w.disk.Nested) (hlinkless : w.disk.Linkless)
    (hdir : w.disk.stat (anchor base given).workDir = .ok (root, .dir))
    (hstart : start host given base w = (.ok b, w')) : Entering root w.disk w'.disk := by
  have habsolute := (isAbsolute_anchor hbase given).2.1
  obtain ⟨hlocate, hthere⟩ := stat_eq_ok hdir
  have hplace := placeOf_of_locate rfl (.refl w.disk) hlocate
  have hsettled : Settled w.disk (namesOf (anchor base given).workDir.text) root := by
    have hroute := route_of_locate hlocate
    have hstarts : w.disk.startOf (anchor base given).workDir.text = [] := if_pos habsolute
    rw [hstarts] at hroute
    exact .intro (List.append_nil _).symm hroute (List.not_mem_nil) rfl fun _ t _ => hlinkless _ t
  obtain ⟨w₂, hdisk, -, hacquire⟩ := start_acquires hstart
  rw [← hdisk] at hd hnested hplace hsettled hlinkless hthere ⊢
  obtain ⟨htaken, -, -⟩ := Workspace.acquire_takes (starts_of_absolute habsolute) hnested hplace hd
    (hlinkless.straight root) hacquire
  have hother := (htaken.of_there habsolute hnested hsettled (by simp [hthere])).1
  refine ⟨htaken.nested, hother, htaken.file, fun hlock => ?_⟩
  -- a directory could not have been locked
  obtain ⟨-, l, hacquired, -, -, lock, w₁, -, hheld, -⟩ :=
    Workspace.acquire_eq_ok (starts_of_absolute habsolute) hacquire
  cases hplace.symm.trans hacquired.place
  have hgrows := grows_makeDirs w₂.disk (anchor base given).workDir
  have hclear := (hgrows.links.straight (hlinkless.straight root)).clear
    (List.prefix_append root [Artifacts.lockFile])
  obtain ⟨-, -, hok⟩ :=
    heldLock_acquire_frame hacquired.names (hd.of_grows hgrows) hclear hheld
  obtain ⟨-, hnot, -⟩ := hok lock rfl
  rcases hgrows.get? (root ++ [Artifacts.lockFile]) with e | ⟨hnone, -⟩
  · exact hnot (e.trans hlock)
  · rw [hlock] at hnone
    cases hnone

end

/-- The places at which two runs may find something else: those of stale files, and the lock file. -/
def unsettled (root : Location) (d d' : Disk) : Set Location :=
  insert (root ++ [Artifacts.lockFile]) (unlike d d')

section

variable {root : Location} {d d' e e' : Disk} (h : StaleIn root d d')
include h

theorem inside_of_unsettled {P : Location} (hP : P ∈ unsettled root d d') :
    root <+: P ∧ P ≠ root ∧ ∀ name ∈ ["temp", "dg-data", "giri-data"], P ≠ root ++ [name] := by
  rcases hP with rfl | hP
  · refine ⟨List.prefix_append _ _, by simp, fun name hname => ?_⟩
    have hne : ∀ name ∈ ["temp", "dg-data", "giri-data"], Artifacts.lockFile ≠ name := by decide
    simpa using hne name hname
  · obtain ⟨hstale, -⟩ := h.stale hP
    exact ⟨hstale.inside, hstale.apart, hstale.dirs⟩

theorem Entering.alike (he : Entering root d e) (he' : Entering root d' e') :
    Alike (unsettled root d d') ∅ e e' where
  nested := he.nested
  nested' := he'.nested
  apart P hP := by
    obtain ⟨hlock, hsame⟩ := not_or.mp hP
    rw [he.other P hlock, he'.other P hlock]
    exact not_not.mp hsame
  fresh _ hm := absurd hm (Set.notMem_empty _)
  rest P := by
    by_cases hlock : P = root ++ [Artifacts.lockFile]
    · rw [hlock]
      exact .inr ⟨.inr he.lock, .inr he'.lock⟩
    · unfold Free
      rw [he.other P hlock, he'.other P hlock]
      exact (h.same P).imp_right And.right

end

/-! ## Both runs -/

/-- Two runs that report the same but for their cleanup, have called the same tools, and have saved
the same at a place. -/
structure Indistinct (goal : Location) (r r' : Report) (w w' : World) : Prop where
  stages : r.stages.filter (·.stage ≠ .cleanup) = r'.stages.filter (·.stage ≠ .cleanup)
  calls : w.calls.map Call.shape = w'.calls.map Call.shape
  finalState : r.finalState = r'.finalState
  outputPath : r.outputPath = r'.outputPath
  saved : r.outputPath ≠ none →
    ∃ n n', w.disk.get? goal = some n ∧ w'.disk.get? goal = some n' ∧ Like (some n) (some n')

/-- Where an absolute path is settled on a disk without links is where it leads. -/
theorem goal_of_settled {d : Disk} (hd : d.Linkless) {p : Path} {l : Location}
    (h : Settled d (namesOf p.text) l) : goal p = l := by
  obtain ⟨hnames, hroute, -, hend, -⟩ := h
  rw [goal, hnames, lexical_append, ← hroute.lexical hd, hend]

/-- A run that has saved its program leaves what stands at a place outside its work directory. -/
theorem Begun.leaves {host : Host} {given : Settings} {base : Path} {w w₁ : World} {b : Start}
    {root source o : Location} (h : Begun given base w w₁ b root source) (hmount : Mounts given)
    {result : Except Fault (Progress × Option Path)} {site : Site}
    (hwork : work host b.settings b.progress ⟨w₁, b.workspace⟩ = (result, site))
    (hstraight : site.world.disk.Straight root) (ho : ¬ root <+: o) :
    Leaves o site.world.disk (Workspace.release site).2.world.disk := by
  have hany : Permits (fun _ _ => True) fun m => root <+: m := by constructor <;> simp
  have hstays := h.work_stays hany host hmount (fun _ _ _ _ m _ => List.prefix_append root m)
    (fun _ _ => trivial) fun _ _ _ _ => trivial
  refine release_leaves (h.misses (hstays.enters h.rootPath hwork) ?_ ?_ ?_) hstraight
  · exact fun m hm => ⟨hm, fun hmo => ho (hm.trans hmo)⟩
  · exact fun hlock => ho ((List.prefix_append _ _).trans hlock)
  · exact fun hroot => absurd hroot ho

/-- What a run reports when its program has been saved. -/
theorem conclude_of_work {host : Host} {s : Settings} {p next : Progress} {workspace : Workspace}
    {w : World} {saved : Option Path} {site : Site}
    (h : work host s p ⟨w, workspace⟩ = (.ok (next, saved), site)) :
    ∃ r, conclude host s p workspace w = (.ok r, (Workspace.release site).2.world) ∧
      r.stages.filter (·.stage ≠ .cleanup) =
        next.records.filter (·.stage ≠ .cleanup) ++ [⟨.done, .completed, ""⟩] ∧
      r.finalState = some next.subject ∧ r.outputPath = saved := by
  unfold conclude
  rw [h]
  refine ⟨_, rfl, ?_, rfl, rfl⟩
  dsimp only
  rw [List.filter_append]
  rfl

section

variable {given : Settings} {base : Path} {d d' : Disk} {w₁ : World} {b : Start}
  {root source : Location} (h : StaleIn root d d')
  (hbegun : Begun given base (.ofDisk d) w₁ b root source)
include h hbegun

/-- The stages of both runs are abreast when they begin. -/
theorem Begun.abreast {host host' : Host} {script : Script} (hbuilt : BuiltIn given)
    (hperformed : script.PerformedBy host) (hperformed' : script.PerformedBy host')
    (hkeeps : script.KeepsTo (b.charter root)) :
    Abreast b.settings b.progress.subject.extension root (unsettled root d d') script host host' where
  performed := hperformed
  performed' := hperformed'
  keeps job program argv n hcalls e he :=
    (List.mem_map.mp (hkeeps n program argv _ ⟨job, hcalls, rfl⟩ e he)).imp
      fun _ hm => ⟨hm.1, hm.2.symm⟩
  builtIn := hbegun.builtIn hbuilt
  rootNames := hbegun.rootNames
  above P hP hmem := by
    obtain ⟨hinside, hne, -⟩ := inside_of_unsettled h hmem
    exact hne (hP.eq_of_length_le hinside.length_le)
  dirs name hname hmem := (inside_of_unsettled h hmem).2.2 name hname rfl

/-- A program outside the directory is the same for both. -/
theorem Begun.known (hsource : ¬ root <+: source) :
    Known (unsettled root d d') ∅ b.settings.sourceFile ∧
      Held (unsettled root d d') b.progress.subject.extension ∅ b.progress.subject := by
  have happart {P : Location} (hP : P <+: source) : P ∉ unsettled root d d' :=
    fun hmem => hsource ((inside_of_unsettled h hmem).1.trans hP)
  have hknown : Known (unsettled root d d') ∅ b.settings.sourceFile := by
    rw [hbegun.sourcePath]
    refine ⟨open_pathOf hbegun.sourceNames fun P hP _ => happart hP, fun hmem => ?_⟩
    rw [goal_pathOf hbegun.sourceNames] at hmem
    exact absurd hmem (happart (List.prefix_refl source))
  obtain ⟨language, -, hsubject⟩ := hbegun.subject
  refine ⟨hknown, ?_, rfl⟩
  rw [hsubject]
  exact hknown

/-- An output that was accepted is outside the directory, and so is the way to it. -/
theorem Begun.clean (hbase : base.isAbsolute = true) (hentering : Entering root d w₁.disk)
    (hdir : d.stat (anchor base given).workDir = .ok (root, .dir))
    (hout : Settings.Settles d (anchor base given).outputPath) :
    Clean (unsettled root d d') b.settings.outputPath ∧ ¬ root <+: goal b.settings.outputPath := by
  obtain ⟨-, hdirAbsolute, houtAbsolute⟩ := isAbsolute_anchor hbase given
  have hlinkless := h.alike.linkless.1
  obtain ⟨root', l', hroot', hl', houtside⟩ := Settings.not_prefix_of_outputProblems houtAbsolute
    hout hdirAbsolute (Settings.settles_of_stat hlinkless hdirAbsolute hdir) hbegun.accepted
  have hplace := placeOf_of_locate rfl (.refl d) (stat_eq_ok hdir).1
  obtain rfl : root = root' := Option.some.inj (hplace.symm.trans hroot')
  obtain ⟨l, -, hsettled⟩ := hout.settled houtAbsolute
  obtain rfl : l = l' := Option.some.inj ((hsettled.placeOf houtAbsolute rfl).symm.trans hl')
  rw [hbegun.output, goal_of_settled hlinkless hsettled]
  refine ⟨clean_of_settled h.nested hlinkless houtAbsolute (fun P hP => ?_) hsettled
    fun P hP hway => houtside ((inside_of_unsettled h hP).1.trans hway), houtside⟩
  rcases hP with rfl | hP
  · exact hentering.not_dir
  · exact (h.stale hP).2.1.not_dir

end

section

variable {host host' : Host} {given : Settings} {base : Path} {w w' w₁ w₁' : World} {b b' : Start}
  {root source source' : Location} {S : Set Location} {script : Script}
  (hbegun : Begun given base w w₁ b root source) (hbegun' : Begun given base w' w₁' b' root source')
  (habreast : Abreast b.settings b.progress.subject.extension root S script host host')
include hbegun hbegun' habreast

/-- Runs that are abreast, with the same program, end in the same way. -/
theorem Begun.indistinct (hbuilt : BuiltIn given) (hsettings : b.settings = b'.settings)
    (hprogress : b.progress = b'.progress)
    (hsites : Site.Alike root S ∅ ⟨w₁, b.workspace⟩ ⟨w₁', b'.workspace⟩)
    (hknown : Known S ∅ b.settings.sourceFile)
    (hheld : Held S b.progress.subject.extension ∅ b.progress.subject)
    (hclean : Clean S b.settings.outputPath) (houtside : ¬ root <+: goal b.settings.outputPath) :
    ∃ r r' w₂ w₂', conclude host b.settings b.progress b.workspace w₁ = (.ok r, w₂) ∧
      conclude host' b'.settings b'.progress b'.workspace w₁' = (.ok r', w₂') ∧
      Indistinct (goal b.settings.outputPath) r r' w₂ w₂' := by
  obtain ⟨F, -, hended, hanswers⟩ := habreast.work hheld hknown hclean _ _ hsites
  obtain ⟨last, site, next, saved, w₂, hstages, hsave, -⟩ :=
    conclude_ok host b.settings b.progress b.workspace w₁
  have hwork : work host b.settings b.progress ⟨w₁, b.workspace⟩ =
      (.ok (next, saved), { site with world := w₂ }) := (bind_of_ok hstages).trans (lift_apply hsave)
  cases hwork' : work host' b.settings b.progress ⟨w₁', b'.workspace⟩ with
  | mk result site' =>
    rw [hwork, hwork'] at hended hanswers
    have hlinkless := hended.world.disk.linkless
    cases hanswers with
    | ok hsame =>
      subst hsame
      obtain ⟨r, hr, hrecords, hfinal, hsaved⟩ := conclude_of_work hwork
      rw [hsettings, hprogress] at hwork'
      obtain ⟨r', hr', hrecords', hfinal', hsaved'⟩ := conclude_of_work hwork'
      refine ⟨r, r', _, _, hr, hr', hrecords.trans hrecords'.symm, ?_, hfinal.trans hfinal'.symm,
        hsaved.trans hsaved'.symm, fun hany => ?_⟩
      · rw [release_calls, release_calls]
        exact hended.world.calls
      -- what was saved is there on both disks, and left there
      obtain ⟨p, hp⟩ := Option.ne_none_iff_exists'.mp (hsaved ▸ hany)
      subst hp
      obtain ⟨rfl, -, l, n, hstat, -⟩ := work_saves hwork
      obtain ⟨hlocate, hn⟩ := stat_eq_ok hstat
      obtain rfl := Alike.goal_of_locate hclean.opens hlinkless.1 hlocate
      have hlike : Like ({ site with world := w₂ }.world.disk.get? (goal b.settings.outputPath))
          (site'.world.disk.get? (goal b.settings.outputPath)) :=
        hended.world.disk.apart _ (hclean.way _ (List.prefix_refl _))
      have hkept := hbegun.leaves hbuilt.mounts hwork (hlinkless.1.straight root) houtside
      have hkept' := hbegun'.leaves hbuilt.mounts hwork' (hlinkless.2.straight root) houtside
      rw [hn] at hlike
      cases hn' : site'.world.disk.get? (goal b.settings.outputPath) with
      | none =>
        rw [hn'] at hlike
        cases hlike
      | some n' =>
        rw [hn'] at hlike
        exact ⟨n, n', hkept.holds _ n (List.prefix_refl _) hn,
          hkept'.holds _ n' (List.prefix_refl _) hn', hlike⟩

end

section

variable {host host' : Host} {given : Settings} {base : Path} {d d' : Disk} {root : Location}
  (hbase : base.isAbsolute = true) (h : StaleIn root d d')
  (hsource : ∀ l n, d.stat (anchor base given).sourceFile = .ok (l, n) → ¬ root <+: l)
  (htools : (prepare host d base given).tools = (prepare host' d' base given).tools)
  {b b' : Start} {w₁ w₁' : World} (hstart : start host given base (.ofDisk d) = (.ok b, w₁))
  (hstart' : start host' given base (.ofDisk d') = (.ok b', w₁'))
include hbase h hsource htools hstart hstart'

/-- Both runs begin with the same settings and the same records. -/
theorem start_alike : b.settings = b'.settings ∧ b.progress = b'.progress := by
  obtain ⟨language, source, hlanguage, hcanonical, hsettings, hprogress⟩ := start_made hstart
  obtain ⟨language', source', hlanguage', hcanonical', hsettings', hprogress'⟩ := start_made hstart'
  have hprepared : prepare host d base given = prepare host' d' base given := by
    unfold prepare at htools ⊢
    dsimp only at htools ⊢
    rw [htools]
  have hd : (World.ofDisk d).disk = d := rfl
  have hd' : (World.ofDisk d').disk = d' := rfl
  rw [hd] at hlanguage hcanonical hsettings hprogress
  rw [hd', ← hprepared] at hlanguage' hsettings' hprogress'
  rw [hd'] at hcanonical'
  cases hlanguage.symm.trans hlanguage'
  have hfound : source = source' := by
    obtain ⟨l, n, hstat, -, rfl⟩ := canonical_ok (isAbsolute_anchor hbase given).1 hcanonical
    have hl : ¬ StaleAt root l := fun hstale => hsource l n hstat hstale.inside
    obtain ⟨n', hstat', -⟩ := h.stat (isAbsolute_anchor hbase given).1 hl hstat
    rw [canonical, hstat'] at hcanonical'
    exact Except.ok.inj hcanonical'
  subst hfound
  have hsame : b.settings = b'.settings := hsettings.trans hsettings'.symm
  exact ⟨hsame, by rw [hprogress, hprogress', hsame]⟩

end

/-! ### Directories with a file from an earlier run -/

/-- A disk on which an earlier run has left a file. -/
def leaving (d : Disk) (l : Location) (content : ByteArray) : Disk :=
  { d with entries := (l, .file d.nextId content false) :: d.entries, nextId := d.nextId + 1 }

theorem get?_leaving {d : Disk} {l : Location} (hl : l ≠ []) (content : ByteArray) (P : Location) :
    (leaving d l content).get? P =
      if P = l then some (.file d.nextId content false) else d.get? P := by
  unfold get? leaving
  by_cases hP : P = []
  · simp [hP, Ne.symm hl]
  · by_cases h : l = P
    · simp [hP, valueAt, h]
    · simp [hP, valueAt, h, Ne.symm h]

/-- The file is stale if it stands where nothing stood. -/
theorem staleIn_leaving {d : Disk} {root l : Location} (hd : d.Nested) (hlinkless : d.Linkless)
    {content : ByteArray} (hd' : (leaving d l content).Nested) (hl : StaleAt root l)
    (hnone : d.get? l = none) : StaleIn root d (leaving d l content) where
  nested := hd
  nested' := hd'
  same P := by
    have hne : l ≠ [] := by
      rintro rfl
      cases hnone
    rw [Free, Free, get?_leaving hne]
    by_cases hP : P = l
    · subst hP
      exact .inr ⟨hl, .inl hnone, .inr ⟨_, _, _, if_pos rfl⟩⟩
    · rw [if_neg hP]
      refine .inl ?_
      cases hn : d.get? P with
      | none => exact .none
      | some n =>
        cases n with
        | file id content x => exact .file id id content x
        | dir => exact .dir
        | sink => exact .sink
        | link target => exact absurd hn (hlinkless P target)

/-- A host with tools that go by a script. -/
def hostOf (script : Script) (searchPath : Option (List Path)) : Host where
  launch before call :=
    let effect := script before.length call.program (unnamed call.argv)
    ⟨[], effect.result, effect.edits.foldl Edit.apply call.disk⟩
  searchPath := searchPath
  freshId n := natText n
  processId := 1
  now := (0, 0)

theorem performedBy_hostOf (script : Script) (searchPath : Option (List Path)) :
    script.PerformedBy (hostOf script searchPath) := ⟨fun _ _ => rfl, fun _ _ => rfl⟩

/-- The reducer of the samples leaves a program; whatever else is called fails. -/
def reducerScript : Script := fun _ program _ =>
  if program = ⟨"/bin/red"⟩ then
    ⟨[.write ["w", "temp", "autoPieOut.c"] "int y;\n".toUTF8], .ok 0⟩
  else ⟨[], .ok 1⟩

theorem reducerScript_keepsTo {s : Settings} (htools : s.tools = { statementReducer := ⟨"/bin/red"⟩ })
    {ext : String} (hext : ext = "c") (on : Stage → Prop) :
    reducerScript.KeepsTo (charter s ext ["w"] on) := by
  rintro n program argv products ⟨job, hcalls, rfl⟩ e he
  unfold reducerScript at he
  split at he
  · rename_i hprogram
    obtain rfl := List.mem_singleton.mp he
    cases hcalls with
    | reducer r =>
      simp [Job.products, hext, Edit.place, Artifacts.reducedDir, Artifacts.reducedStem]
    | slicer p => cases p <;> simp [Pass.program, htools] at hprogram
    | _ => simp [htools] at hprogram
  · cases he

/-- The failure line in the product of an earlier run. -/
def staleDisk : Disk := leaving sharedDisk ["w", "adjustedLineNumber.txt"] "7\n".toUTF8

theorem staleIn_sample : StaleIn ["w"] sharedDisk staleDisk :=
  staleIn_leaving (nested_of_entries (by decide)) (plain_of_entries (by decide) (by decide)
    (by decide)).linkless (nested_of_entries (by decide)) ⟨by decide, by decide, by decide⟩ rfl

def scriptedRun (d : Disk) : Except Fault Report × World :=
  run (hostOf reducerScript none) (sharing ⟨"/o.c"⟩ ⟨"/w"⟩) ⟨"/"⟩ (.ofDisk d)

/-- A disk with a reducer that has the name of a product, and a work directory. -/
def lookupDisk : Disk := leaving sharedDisk ["bin", "criteria.txt"] ByteArray.empty

/-- The criteria of an earlier run. -/
def withCriteria (d : Disk) : Disk := leaving d ["w", "criteria.txt"] "1:x\n".toUTF8

/-- Tools that leave nothing. -/
def idleScript : Script := fun _ _ _ => ⟨[], .ok 1⟩

/-- A run with the work directory on the search path. -/
def lookupRun (reducer output : Path) (d : Disk) : Except Fault Report × World :=
  run (hostOf idleScript (some [⟨"/w"⟩, ⟨"/bin"⟩]))
    { sharing output ⟨"/w"⟩ with tools := { statementReducer := reducer } } ⟨"/"⟩ (.ofDisk d)

/-- Where a run says that it saved its program. -/
def savedAt (r : Except Fault Report) : Option (Option Path) := r.toOption.map Report.outputPath

end Pipeline

end Whittle
