import Whittle.Proofs.Pipeline.Start

/-!
# What the check finds

Each check of the settings has a rank, in the order of the report: the source, the options, the
output, the programs. The check answers a language exactly if the settings are `Valid`; otherwise
the report has one entry for each check that fails, by rank, and nothing else (`validate_exact`).
What it asks of programs depends only on the stages that are enabled (`Settings.Needs`).
-/

namespace Whittle

open Text Disk

/-! ## Programs that are needed -/

/-- The programs that a stage calls. -/
def Stage.programs (backend : Backend) : Stage → List Role
  | .extractCriteria => [.variableExtractor]
  | .staticSlice =>
    [.sliceExtractor, if backend = .local then .staticSlicer else .containerRuntime]
  | .dynamicSlice =>
    [.sliceExtractor, if backend = .local then .dynamicSlicer else .containerRuntime]
  | .graphReduce => [.graphReducer]
  | .statementReduce => [.statementReducer]
  | _ => []

/-- Where a problem stands in a report: problems of the source come first, then those of the
options, of the output, and of the programs. -/
def SettingsProblem.rank : SettingsProblem → Nat
  | sourceMissing _ => 0
  | extensionUnknown _ => 1
  | sourceUnreadable .. => 2
  | lineOutside .. => 3
  | ratioOutside _ => 4
  | outputInside .. => 5
  | programMissing role _ => 6 + role.ctorIdx

namespace Disk

variable {d : Disk} {p : Path}

theorem isFile_iff : d.isFile p = true ↔
    ∃ place id content executable, d.stat p = .ok (place, .file id content executable) := by
  unfold isFile
  constructor
  · intro h
    split at h
    · rename_i place n hstat
      cases n with
      | file id content executable => exact ⟨place, id, content, executable, hstat⟩
      | dir => cases h
      | link => cases h
      | sink => cases h
    · cases h
  · rintro ⟨place, id, content, executable, hstat⟩
    rw [hstat]
    rfl

theorem read_of_stat {place : Location} {id : Nat} {content : ByteArray} {executable : Bool}
    (h : d.stat p = .ok (place, .file id content executable)) : d.read p = .ok content := by
  simp only [Disk.read, h]

theorem readText_of_stat {place : Location} {id : Nat} {content : ByteArray} {executable : Bool}
    {text : String} (h : d.stat p = .ok (place, .file id content executable))
    (htext : String.fromUTF8? content = some text) : d.readText p = .ok text := by
  simp only [Disk.readText, read_of_stat h, htext]

/-- A file can be read, and what it holds is a text or is not. -/
theorem readText_of_isFile (h : d.isFile p = true) : ∃ content, d.read p = .ok content ∧
    d.readText p = match String.fromUTF8? content with
      | some text => .ok text
      | none => .error .notText := by
  obtain ⟨place, id, content, executable, hstat⟩ := isFile_iff.mp h
  refine ⟨content, read_of_stat hstat, ?_⟩
  cases htext : String.fromUTF8? content <;>
    simp only [Disk.readText, read_of_stat hstat, htext]

end Disk

namespace Settings

/-- An enabled stage calls the program. -/
def Needs (s : Settings) (role : Role) : Prop :=
  ∃ stage, s.enables stage = true ∧ role ∈ stage.programs s.backend

theorem mem_requiredRoles {s : Settings} {role : Role} : role ∈ s.requiredRoles ↔ s.Needs role := by
  have hneeds : s.Needs role ↔ ∃ stage ∈ Stage.all, s.enables stage = true ∧
      role ∈ stage.programs s.backend :=
    ⟨fun ⟨stage, h⟩ => ⟨stage, stage.mem_all, h⟩, fun ⟨stage, _, h⟩ => ⟨stage, h⟩⟩
  rw [hneeds]
  unfold requiredRoles slicing
  simp only [Stage.all, List.exists_mem_cons_iff, enables, slicing, Stage.programs]
  cases s.staticSlice <;> cases s.dynamicSlice <;> cases s.delta <;> cases s.backend <;>
    cases role <;> decide

theorem pairwise_requiredRoles (s : Settings) :
    s.requiredRoles.Pairwise fun r r' => r.ctorIdx < r'.ctorIdx := by
  unfold requiredRoles slicing
  cases s.staticSlice <;> cases s.dynamicSlice <;> cases s.delta <;> cases s.backend <;> decide

/-! ## What is wrong -/

section

variable (s : Settings) (searchPath : Option (List Path)) (d : Disk) (base : Path)

/-- Settings with which nothing is wrong: the source is a file that holds a text with the failure
line in it, its extension is that of a language, the ratio is one, the output is not in the
directory that is cleaned up, and every program that an enabled stage calls is found. -/
structure Valid (language : Language) : Prop where
  source : ∃ place id content executable text,
    d.stat s.sourceFile = .ok (place, .file id content executable) ∧
      String.fromUTF8? content = some text ∧ 1 ≤ s.line ∧ s.line ≤ lineCount text
  extension : Language.ofPath s.sourceFile = some language
  ratio : s.ratio.inUnitInterval = true
  output : ¬ (settle d (base.join s.workDir)).parts <+: (settle d (base.join s.outputPath)).parts
  programs : ∀ role, s.Needs role →
    ∃ p, Toolchain.locate searchPath d base (s.tools.program role) = some p

/-- What a problem says holds of the settings. -/
def Raises : SettingsProblem → Prop
  | .sourceMissing p => p = s.sourceFile ∧ d.isFile p = false
  | .extensionUnknown p => p = s.sourceFile ∧ d.isFile p = true ∧ Language.ofPath p = none
  | .sourceUnreadable p cause => p = s.sourceFile ∧ d.isFile p = true ∧ cause = .notText ∧
      ∃ content, d.read p = .ok content ∧ String.fromUTF8? content = none
  | .lineOutside line p lines => p = s.sourceFile ∧ line = s.line ∧ d.isFile p = true ∧
      ∃ text, d.readText p = .ok text ∧ lines = lineCount text ∧ ¬ (1 ≤ line ∧ line ≤ lines)
  | .ratioOutside ratio => ratio = s.ratio ∧ ratio.inUnitInterval = false
  | .outputInside output workDir => output = settle d (base.join s.outputPath) ∧
      workDir = settle d (base.join s.workDir) ∧ workDir.parts <+: output.parts
  | .programMissing role program => s.Needs role ∧ program = s.tools.program role ∧
      Toolchain.locate searchPath d base program = none

end

section

variable {s : Settings} {searchPath : Option (List Path)} {d : Disk} {base : Path}

variable (searchPath base) in
theorem mem_sourceProblems {p : SettingsProblem} :
    p ∈ s.sourceProblems d ↔ p.rank < 4 ∧ s.Raises searchPath d base p := by
  unfold sourceProblems
  cases hfile : d.isFile s.sourceFile with
  | false =>
    rw [if_pos (by decide), List.mem_singleton]
    cases p <;> (simp only [SettingsProblem.rank, Raises]; grind)
  | true =>
    -- Of the text and the line one at most is wrong: what is no text has no lines.
    obtain ⟨content, hread, htext⟩ := readText_of_isFile hfile
    rw [if_neg (by decide), htext]
    simp only [Option.isNone_iff_eq_none]
    cases hutf : String.fromUTF8? content with
    | none => cases p <;> (simp only [SettingsProblem.rank, Raises]; grind)
    | some text => cases p <;> (simp only [SettingsProblem.rank, Raises]; grind)

variable (searchPath d base) in
theorem mem_optionProblems {p : SettingsProblem} :
    p ∈ s.optionProblems ↔ p.rank = 4 ∧ s.Raises searchPath d base p := by
  unfold optionProblems
  cases p <;> (simp only [SettingsProblem.rank, Raises]; grind)

variable (searchPath) in
theorem mem_outputProblems {p : SettingsProblem} :
    p ∈ s.outputProblems d base ↔ p.rank = 5 ∧ s.Raises searchPath d base p := by
  unfold outputProblems Path.startsWith
  cases p <;> (simp only [SettingsProblem.rank, Raises, List.isPrefixOf_iff_prefix]; grind)

theorem mem_programProblems {p : SettingsProblem} :
    p ∈ s.programProblems searchPath d base ↔ 6 ≤ p.rank ∧ s.Raises searchPath d base p := by
  unfold programProblems
  simp only [List.mem_filterMap, mem_requiredRoles, Option.isNone_iff_eq_none]
  cases p <;> (simp only [SettingsProblem.rank, Raises]; grind)

/-- The report says what is wrong, and nothing else. -/
theorem mem_errors {p : SettingsProblem} :
    p ∈ (s.check searchPath d base).errors ↔ s.Raises searchPath d base p := by
  simp only [check, List.mem_append, mem_sourceProblems searchPath base,
    mem_optionProblems searchPath d base, mem_outputProblems searchPath, mem_programProblems,
    ← or_and_right]
  exact and_iff_right (by omega)

theorem pairwise_sourceProblems :
    (s.sourceProblems d).Pairwise fun p q => p.rank < q.rank := by
  unfold sourceProblems
  split
  · exact List.pairwise_singleton _ _
  · cases d.readText s.sourceFile with
    | error cause => split <;> simp [SettingsProblem.rank]
    | ok text => split <;> dsimp only <;> split <;> simp [SettingsProblem.rank]

theorem pairwise_programProblems :
    (s.programProblems searchPath d base).Pairwise fun p q => p.rank < q.rank := by
  refine List.pairwise_filterMap.mpr (s.pairwise_requiredRoles.imp ?_)
  intro role role' hlt p hp q hq
  dsimp only at hp hq
  split at hp
  · split at hq
    · cases hp
      cases hq
      exact Nat.add_lt_add_left hlt 6
    · cases hq
  · cases hp

/-- The report has one entry for each check that fails, in the order of the checks. -/
theorem pairwise_errors :
    (s.check searchPath d base).errors.Pairwise fun p q => p.rank < q.rank := by
  have hsource (p) (hp : p ∈ s.sourceProblems d) := ((mem_sourceProblems searchPath base).mp hp).1
  have hoption (p) (hp : p ∈ s.optionProblems) := ((mem_optionProblems searchPath d base).mp hp).1
  have houtput (p) (hp : p ∈ s.outputProblems d base) := ((mem_outputProblems searchPath).mp hp).1
  have hprogram (p) (hp : p ∈ s.programProblems searchPath d base) :=
    (mem_programProblems.mp hp).1
  simp only [check, List.pairwise_append, List.mem_append]
  refine ⟨⟨⟨pairwise_sourceProblems, ?_, ?_⟩, ?_, ?_⟩, pairwise_programProblems, ?_⟩
  · unfold optionProblems
    split <;> simp
  · intro p hp q hq
    exact Nat.lt_of_lt_of_eq (hsource p hp) (hoption q hq).symm
  · unfold outputProblems
    dsimp only
    split <;> simp
  · intro p hp q hq
    rw [houtput q hq]
    rcases hp with hp | hp
    · exact Nat.lt_trans (hsource p hp) (by decide)
    · exact hoption p hp ▸ by decide
  · intro p hp q hq
    refine Nat.lt_of_lt_of_le ?_ (hprogram q hq)
    rcases hp with (hp | hp) | hp
    · exact Nat.lt_trans (hsource p hp) (by decide)
    · exact hoption p hp ▸ by decide
    · exact houtput p hp ▸ by decide

theorem valid_iff {language : Language} : s.Valid searchPath d base language ↔
    (s.check searchPath d base).errors = [] ∧ Language.ofPath s.sourceFile = some language := by
  rw [List.eq_nil_iff_forall_not_mem]
  simp only [mem_errors]
  constructor
  · rintro ⟨⟨place, id, content, executable, text, hstat, htext, hfirst, hlast⟩, hext, hratio,
      houtput, hprograms⟩
    have hfile := isFile_iff.mpr ⟨place, id, content, executable, hstat⟩
    have hread := read_of_stat hstat
    have hreadText := readText_of_stat hstat htext
    refine ⟨fun p hp => ?_, hext⟩
    cases p with
    | sourceMissing p =>
      obtain ⟨rfl, hmissing⟩ := hp
      exact Bool.false_ne_true (hmissing.symm.trans hfile)
    | extensionUnknown p =>
      obtain ⟨rfl, -, hnone⟩ := hp
      cases hnone.symm.trans hext
    | sourceUnreadable p cause =>
      obtain ⟨rfl, -, -, content', hread', hnone⟩ := hp
      cases hread.symm.trans hread'
      cases hnone.symm.trans htext
    | lineOutside line p lines =>
      obtain ⟨rfl, rfl, -, text', htext', rfl, houtside⟩ := hp
      cases hreadText.symm.trans htext'
      exact houtside ⟨hfirst, hlast⟩
    | ratioOutside ratio =>
      obtain ⟨rfl, houtside⟩ := hp
      exact Bool.false_ne_true (houtside.symm.trans hratio)
    | outputInside output workDir =>
      obtain ⟨rfl, rfl, hinside⟩ := hp
      exact houtput hinside
    | programMissing role program =>
      obtain ⟨hneeds, rfl, hnone⟩ := hp
      obtain ⟨found, hfound⟩ := hprograms role hneeds
      cases hnone.symm.trans hfound
  · rintro ⟨hnone, hext⟩
    have hfile : d.isFile s.sourceFile = true :=
      Bool.not_eq_false _ ▸ fun h => hnone (.sourceMissing _) ⟨rfl, h⟩
    obtain ⟨place, id, content, executable, hstat⟩ := isFile_iff.mp hfile
    have hread := read_of_stat hstat
    obtain ⟨text, htext⟩ : ∃ text, String.fromUTF8? content = some text :=
      Option.ne_none_iff_exists'.mp fun h =>
        hnone (.sourceUnreadable _ .notText) ⟨rfl, hfile, rfl, content, hread, h⟩
    have hreadText := readText_of_stat hstat htext
    obtain ⟨hfirst, hlast⟩ : 1 ≤ s.line ∧ s.line ≤ lineCount text :=
      Classical.not_not.mp fun h =>
        hnone (.lineOutside _ _ _) ⟨rfl, rfl, hfile, text, hreadText, rfl, h⟩
    refine ⟨⟨place, id, content, executable, text, hstat, htext, hfirst, hlast⟩, hext, ?_, ?_, ?_⟩
    · exact Bool.not_eq_false _ ▸ fun h => hnone (.ratioOutside _) ⟨rfl, h⟩
    · exact fun h => hnone (.outputInside _ _) ⟨rfl, rfl, h⟩
    · exact fun role hneeds => Option.ne_none_iff_exists'.mp fun h =>
        hnone (.programMissing _ _) ⟨hneeds, rfl, h⟩

theorem warnAll_eq (ws : List SettingsWarning) (w : World) : warnAll ws w =
    (.ok (), { w with notices := w.notices ++ ws.map fun x => ⟨.warning, x.text⟩ }) := by
  induction ws generalizing w with
  | nil =>
    rw [List.map_nil, List.append_nil]
    rfl
  | cons x xs ih =>
    refine (ih (Action.warn x.text w).2).trans ?_
    rw [List.map_cons, List.append_cons]
    rfl

theorem validate_eq (host : Host) (s : Settings) (base : Path) (w : World) :
    s.validate host base w =
      (if (s.check host.searchPath w.disk base).errors = [] then
          match Language.ofPath s.sourceFile with
          | some language => .ok language
          | none => .error (.unsupportedLanguage s.sourceFile)
        else .error (.invalid (s.check host.searchPath w.disk base).errors),
        { w with
          notices := w.notices ++ s.optionWarnings.map fun x => ⟨.warning, x.text⟩ }) := by
  rw [validate, bind_of_ok (Action.getDisk_apply w)]
  dsimp only
  rw [bind_of_ok (warnAll_eq _ w)]
  cases herrors : (s.check host.searchPath w.disk base).errors with
  | nil =>
    rw [if_neg (by simp [Findings.isValid, herrors]), if_pos rfl]
    cases Language.ofPath s.sourceFile <;> rfl
  | cons p ps =>
    rw [if_pos (by simp [Findings.isValid, herrors]), if_neg (List.cons_ne_nil p ps)]
    rfl

/-- Where nothing is wrong the extension is that of a language. -/
theorem exists_language (h : (s.check searchPath d base).errors = []) :
    ∃ language, Language.ofPath s.sourceFile = some language := by
  have hnone (p : SettingsProblem) : ¬ s.Raises searchPath d base p :=
    fun hp => List.not_mem_nil (h ▸ mem_errors.mpr hp)
  have hfile : d.isFile s.sourceFile = true :=
    Bool.not_eq_false _ ▸ fun h => hnone (.sourceMissing _) ⟨rfl, h⟩
  exact Option.ne_none_iff_exists'.mp fun h => hnone (.extensionUnknown _) ⟨rfl, hfile, h⟩

/-- Programs that no enabled stage calls are not asked for. -/
theorem check_congr {tools : Toolchain}
    (htools : ∀ role, s.Needs role → tools.program role = s.tools.program role) :
    { s with tools := tools }.check searchPath d base = s.check searchPath d base := by
  have hprograms : { s with tools := tools }.programProblems searchPath d base =
      s.programProblems searchPath d base := by
    refine List.filterMap_congr fun role hrole => ?_
    rw [htools role (mem_requiredRoles.mp hrole)]
  unfold check
  rw [hprograms]
  rfl

/-- The check answers the language of settings that are `Valid`. All others it refuses with a report
that has exactly one entry for each check that fails, in the order of the checks. It changes nothing
but the notices, and it does not ask for programs that no enabled stage calls. -/
theorem validate_exact (host : Host) (s : Settings) (base : Path) (w : World) :
    ∃ answer, s.validate host base w = (answer, { w with
        notices := w.notices ++ s.optionWarnings.map fun x => ⟨.warning, x.text⟩ }) ∧
      (∀ language, answer = .ok language ↔ s.Valid host.searchPath w.disk base language) ∧
      (∀ f, answer = .error f → f.kind = .validation ∧ ∃ problems, f = .invalid problems ∧
        problems ≠ [] ∧ (∀ p, p ∈ problems ↔ s.Raises host.searchPath w.disk base p) ∧
        (problems.Pairwise fun p q => p.rank < q.rank) ∧
        f.message =
          "Validation failed:\n" ++ String.intercalate "\n" (problems.map SettingsProblem.text)) ∧
      ∀ tools : Toolchain, (∀ role, s.Needs role → tools.program role = s.tools.program role) →
        { s with tools := tools }.validate host base w = s.validate host base w := by
  refine ⟨_, validate_eq host s base w, fun language => ?_, fun f hf => ?_, fun tools htools => ?_⟩
  · rw [valid_iff]
    split
    · rename_i hnone
      cases Language.ofPath s.sourceFile <;> simp [hnone]
    · rename_i hsome
      simp [hsome]
  · split at hf
    · rename_i hnone
      obtain ⟨language, hlanguage⟩ := exists_language hnone
      rw [hlanguage] at hf
      cases hf
    · rename_i hsome
      cases hf
      exact ⟨rfl, _, rfl, hsome, fun p => mem_errors, pairwise_errors, rfl⟩
  · rw [validate_eq, validate_eq, check_congr htools]
    rfl

/-- Nothing is there, and all but the source's own checks and those of unused programs fail. -/
example : (check
    { sourceFile := ⟨"a.c"⟩, line := 0, ratio := .nan, staticSlice := false, dynamicSlice := false,
      delta := false, outputFile := some ⟨".autopie/out.c"⟩ } none Disk.empty ⟨"/"⟩).errors =
    [.sourceMissing ⟨"a.c"⟩, .ratioOutside .nan, .outputInside ⟨"/.autopie/out.c"⟩ ⟨"/.autopie"⟩,
      .programMissing .statementReducer ⟨"NaiveReduction"⟩] := by decide +kernel

end

end Settings

end Whittle
