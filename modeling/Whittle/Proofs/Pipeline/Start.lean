import Whittle.Pipeline.Run
import Whittle.Proofs.Workspace.Acquire

/-!
# What the stages start from

Once settings have passed the check and the work directory is there, the program to be reduced is a
text with the failure line among its lines, and outside the work directory nothing has become of it.
-/

namespace Whittle

open Text Disk

/-! ## Checked settings -/

theorem Settings.warnAll_apply (ws : List SettingsWarning) (w : World) :
    ∃ notices, Settings.warnAll ws w = (.ok (), { w with notices := notices }) := by
  induction ws generalizing w with
  | nil => exact ⟨w.notices, rfl⟩
  | cons x xs ih =>
    obtain ⟨notices, h⟩ := ih (Action.warn x.text w).2
    exact ⟨notices, h⟩

theorem Settings.sourceProblems_eq_nil {s : Settings} {d : Disk} (h : s.sourceProblems d = []) :
    d.isFile s.sourceFile = true ∧
      ∃ text, d.readText s.sourceFile = .ok text ∧ 1 ≤ s.line ∧ s.line ≤ lineCount text := by
  unfold sourceProblems at h
  split at h
  · cases h
  · rename_i hfile
    refine ⟨by simpa using hfile, ?_⟩
    have hrest := (List.append_eq_nil_iff.mp h).2
    split at hrest
    · rename_i text htext
      split at hrest
      · cases hrest
      · exact ⟨text, htext, by omega, by omega⟩
    · cases hrest

/-- Checking changes nothing but the notices. -/
theorem Settings.validate_world {host : Host} {s : Settings} {base : Path} {w w' : World}
    {r : Except Fault Language} (h : s.validate host base w = (r, w')) :
    w'.disk = w.disk ∧ w'.calls = w.calls := by
  rw [validate, bind_of_ok (Action.getDisk_apply w)] at h
  dsimp only at h
  obtain ⟨notices, hwarned⟩ := warnAll_apply (s.check host.searchPath w.disk base).warnings w
  rw [bind_of_ok hwarned] at h
  split at h
  · cases h
    exact ⟨rfl, rfl⟩
  · cases hl : Language.ofPath s.sourceFile with
    | none =>
      rw [hl] at h
      cases h
      exact ⟨rfl, rfl⟩
    | some l =>
      rw [hl] at h
      cases h
      exact ⟨rfl, rfl⟩

theorem Settings.validate_eq_ok {host : Host} {s : Settings} {base : Path} {w w' : World}
    {language : Language} (h : s.validate host base w = (.ok language, w')) :
    Language.ofPath s.sourceFile = some language ∧ s.sourceProblems w.disk = [] ∧
      s.outputProblems w.disk base = [] := by
  rw [validate, bind_of_ok (Action.getDisk_apply w)] at h
  dsimp only at h
  obtain ⟨notices, hwarned⟩ := warnAll_apply (s.check host.searchPath w.disk base).warnings w
  rw [bind_of_ok hwarned] at h
  split at h
  · cases h
  · rename_i hvalid
    have herrors : (s.check host.searchPath w.disk base).errors = [] := by
      simpa [Findings.isValid] using hvalid
    obtain ⟨hfirst, -⟩ := List.append_eq_nil_iff.mp herrors
    obtain ⟨hfirst, houtput⟩ := List.append_eq_nil_iff.mp hfirst
    obtain ⟨hsource, -⟩ := List.append_eq_nil_iff.mp hfirst
    refine ⟨?_, hsource, houtput⟩
    cases hl : Language.ofPath s.sourceFile with
    | none =>
      rw [hl] at h
      cases h
    | some l =>
      rw [hl] at h
      cases h
      rfl

/-! ## The start of a run -/

theorem Path.isAbsolute_join {base p : Path} (h : base.isAbsolute = true) :
    (base.join p).isAbsolute = true := by
  have hfront {t : String} : (Path.mk (base.text ++ t)).isAbsolute = true := by
    have h : base.text.toList.head? = some '/' := of_decide_eq_true h
    refine decide_eq_true ?_
    rw [String.toList_append, List.head?_append, h]
    rfl
  unfold join
  split
  · assumption
  · split
    · exact hfront
    · show (Path.mk (base.text ++ "/" ++ p.text)).isAbsolute = true
      rw [String.append_assoc]
      exact hfront

namespace Pipeline

theorem isAbsolute_anchor {base : Path} (h : base.isAbsolute = true) (s : Settings) :
    (anchor base s).sourceFile.isAbsolute = true ∧ (anchor base s).workDir.isAbsolute = true ∧
      (anchor base s).outputPath.isAbsolute = true := by
  have hfixed (p : Path) : (if p.isAbsolute then p else base.join p).isAbsolute = true := by
    split
    · assumption
    · exact Path.isAbsolute_join h
  exact ⟨hfixed _, hfixed _, hfixed _⟩

/-- What is known when the stages begin: where the program and the work directory are, and what was
given. -/
structure Begun (given : Settings) (base : Path) (w w' : World) (b : Start)
    (root source : Location) : Prop where
  calls : w'.calls = w.calls
  acquired : Acquired (anchor base given).workDir w.disk b.workspace root
  sourcePath : b.settings.sourceFile = pathOf source
  sourcePlace : ∃ n, w.disk.stat (anchor base given).sourceFile = .ok (source, n)
  sourceReached : Reached w.disk source
  backend : b.settings.backend = given.backend
  containers : b.settings.tools.staticContainer = given.tools.staticContainer ∧
    b.settings.tools.dynamicContainer = given.tools.dynamicContainer
  enables : b.settings.enables = given.enables
  output : b.settings.outputPath = (anchor base given).outputPath
  accepted : (anchor base given).outputProblems w.disk base = []
  subject : ∃ language, Language.ofPath (anchor base given).sourceFile = some language ∧
    b.progress.subject = Subject.initial b.settings language
  records : ∀ r ∈ b.progress.records, r.outcome ≠ .adopted
  text : ∃ text, w.disk.readText (anchor base given).sourceFile = .ok text ∧
    1 ≤ b.settings.line ∧ b.settings.line ≤ lineCount text

namespace Begun

variable {given : Settings} {base : Path} {w w' : World} {b : Start} {root source : Location}
  (h : Begun given base w w' b root source)
include h

theorem rootPath : b.workspace.root = pathOf root := h.acquired.root

theorem rootNames : ∀ n ∈ root, IsName n := h.acquired.names

theorem sourceNames : ∀ n ∈ source, IsName n := h.sourceReached.isName

end Begun

/-- What is known besides if there are no links: no tool was called, and the program can be read at
its canonical path. -/
structure Started (given : Settings) (base : Path) (w w' : World) (b : Start)
    (root source : Location) : Prop extends Begun given base w w' b root source where
  linkless : w'.disk.Linkless
  readable : ∃ text, w.disk.readText b.settings.sourceFile = .ok text ∧ 1 ≤ b.settings.line ∧
    b.settings.line ≤ lineCount text
  original : w.disk.read b.settings.sourceFile = w.disk.read (anchor base given).sourceFile
  kept : ¬ root <+: source → ∀ content, w.disk.read b.settings.sourceFile = .ok content →
    w'.disk.read b.settings.sourceFile = .ok content

section

variable {host : Host} {given : Settings} {base : Path} {w w' : World}
  (hbase : base.isAbsolute = true)
include hbase

theorem start_begun {b : Start} (h : start host given base w = (.ok b, w')) :
    ∃ root source, Begun given base w w' b root source := by
  obtain ⟨d, w₁, hget, h⟩ := bind_eq_ok h
  cases hget
  obtain ⟨language, w₂, hvalidate, h⟩ := bind_eq_ok h
  obtain ⟨hdisk, hcalls⟩ := Settings.validate_world hvalidate
  obtain ⟨hlanguage, hproblems, haccepted⟩ := Settings.validate_eq_ok hvalidate
  obtain ⟨-, text, htext, hpos, hle⟩ := Settings.sourceProblems_eq_nil hproblems
  obtain ⟨canonical, w₃, hask, h⟩ := bind_eq_ok h
  obtain ⟨hcanonical, rfl⟩ := Action.ask_eq_ok hask
  obtain ⟨workspace, w₄, hacquire, h⟩ := bind_eq_ok h
  obtain ⟨rfl, rfl⟩ := pure_eq_ok h
  obtain ⟨hsourceAbs, hdirAbs, -⟩ := isAbsolute_anchor hbase given
  rw [hdisk] at hcanonical
  obtain ⟨source, n, hstat, hreached, rfl⟩ := canonical_ok hsourceAbs hcanonical
  obtain ⟨hsame, root, hacquired, -⟩ := Workspace.acquire_eq_ok (starts_of_absolute hdirAbs) hacquire
  rw [hdisk] at hacquired
  refine ⟨root, source, hsame.trans hcalls, hacquired, rfl, ⟨n, hstat⟩, hreached, rfl, ⟨rfl, rfl⟩,
    rfl, rfl, haccepted, ⟨language, hlanguage, rfl⟩, fun r hr => ?_, ⟨text, htext, hpos, hle⟩⟩
  rcases List.mem_append.mp hr with hr | hr
  · simp only [List.mem_cons, List.not_mem_nil, or_false] at hr
    rcases hr with rfl | rfl <;> simp
  · obtain ⟨stage, -, rfl⟩ := List.mem_map.mp hr
    simp

omit hbase in
/-- A run begins with a workspace in its work directory, on the disk that it was given. -/
theorem start_acquires {b : Start} (h : start host given base w = (.ok b, w')) :
    ∃ w₁, w₁.disk = w.disk ∧ w₁.calls = w.calls ∧
      Workspace.acquire host (anchor base given).workDir w₁ = (.ok b.workspace, w') := by
  obtain ⟨d, w₁, hget, h⟩ := bind_eq_ok h
  cases hget
  obtain ⟨language, w₂, hvalidate, h⟩ := bind_eq_ok h
  obtain ⟨hdisk, hcalls⟩ := Settings.validate_world hvalidate
  obtain ⟨canonical, w₃, hask, h⟩ := bind_eq_ok h
  obtain ⟨-, rfl⟩ := Action.ask_eq_ok hask
  obtain ⟨workspace, w₄, hacquire, h⟩ := bind_eq_ok h
  obtain ⟨rfl, rfl⟩ := pure_eq_ok h
  exact ⟨_, hdisk, hcalls, hacquire⟩

omit hbase in
/-- A start that fails before it comes to the work directory leaves the disk as it was; what happens
then is what comes of the attempt at a workspace. -/
theorem start_cases {r : Except Fault Start} (h : start host given base w = (r, w')) :
    (r.isOk = false ∧ w'.disk = w.disk) ∨ ∃ w₁ k, w₁.disk = w.disk ∧
      Workspace.acquire host (anchor base given).workDir w₁ = (k, w') ∧ k.isOk = r.isOk := by
  rw [start, bind_of_ok (Action.getDisk_apply w)] at h
  rcases bind_cases h with ⟨e, hvalidate, rfl⟩ | ⟨language, w₁, hvalidate, h⟩
  · exact .inl ⟨rfl, (Settings.validate_world hvalidate).1⟩
  · have hdisk := (Settings.validate_world hvalidate).1
    rcases bind_cases h with ⟨e, hask, rfl⟩ | ⟨source, w₂, hask, h⟩
    · exact .inl ⟨rfl, by rw [Action.ask_world hask, hdisk]⟩
    · obtain ⟨-, rfl⟩ := Action.ask_eq_ok hask
      rcases bind_cases h with ⟨e, hacquire, rfl⟩ | ⟨workspace, w₂, hacquire, h⟩
      · exact .inr ⟨_, _, hdisk, hacquire, rfl⟩
      · cases h
        exact .inr ⟨_, _, hdisk, hacquire, rfl⟩

/-- Whatever comes of the attempt to begin, a place is left as it was that is apart from the work
directory. If the attempt fails, and the place is in the directory, that must have been there
before. -/
theorem start_leaves {r : Except Fault Start} {o : Location} (hd : w.disk.Numbered)
    (hapart : ∀ root, w.disk.placeOf (anchor base given).workDir = some root → w.disk.Apart root o)
    (hroot : r.isOk = false → ∀ root, w.disk.placeOf (anchor base given).workDir = some root →
      root <+: o → w.disk.pathExists (anchor base given).workDir = true)
    (h : start host given base w = (r, w')) : Leaves o w.disk w'.disk := by
  have hdir := @starts_of_absolute w.disk _ (isAbsolute_anchor hbase given).2.1
  rcases start_cases h with ⟨-, e⟩ | ⟨w₁, k, hdisk, hacquire, hk⟩
  · rw [e]
    exact .refl o w.disk
  · rw [← hdisk] at hd hapart hroot hdir ⊢
    exact Workspace.acquire_leaves hdir hd hapart (hk ▸ hroot) hacquire

theorem start_eq_ok {b : Start} (hd : w.disk.Plain) (h : start host given base w = (.ok b, w')) :
    ∃ root source, Started given base w w' b root source := by
  obtain ⟨root, source, hbegun⟩ := start_begun hbase h
  have hleaves {o : Location} (ho : ¬ root ++ [Artifacts.lockFile] <+: o) :
      Leaves o w.disk w'.disk := by
    refine start_leaves hbase hd.numbered (fun l hl => ⟨hd.linkless.straight l, ?_⟩)
      (fun hfailed => by cases hfailed) h
    cases hl.symm.trans hbegun.acquired.place
    exact ho
  have hlinkless : w'.disk.Linkless := (hleaves (o := []) (by simp)).links.linkless hd.linkless
  have hcanonical : w.disk.canonical (anchor base given).sourceFile =
      .ok b.settings.sourceFile := by
    obtain ⟨n, hstat⟩ := hbegun.sourcePlace
    rw [canonical, hstat, hbegun.sourcePath]
  have hread : w.disk.read b.settings.sourceFile = w.disk.read (anchor base given).sourceFile := by
    simp only [Disk.read, stat_canonical (isAbsolute_anchor hbase given).1 hd.linkless hcanonical]
  refine ⟨root, source, hbegun, hlinkless, ?_, hread, fun houtside content hcontent => ?_⟩
  · obtain ⟨text, htext, hlines⟩ := hbegun.text
    exact ⟨text, by rw [readText, hread]; exact htext, hlines⟩
  · have hout := fun hlock => houtside ((List.prefix_append root [Artifacts.lockFile]).trans hlock)
    rw [hbegun.sourcePath] at hcontent ⊢
    exact read_of_holds (hd.linkless.clear source) hbegun.sourceNames (hleaves hout).holds hcontent

end

end Pipeline

end Whittle
