import Whittle.Proofs.Pipeline.Steps
import Whittle.Proofs.Workspace.Products

/-!
# What is adopted

A stage that adopts a program has called its tool last, and the program is what that call left
(`Adoption`): the bytes of the product, under a name of their own. The failure line is one of the
lines of the adopted text, whatever the tool reported.
-/

namespace Whittle.Pipeline

open Text Disk

/-- The program that a stage adopts is the text that the last call of the stage left in its product,
and its failure line is one of its lines. -/
structure Adoption (host : Host) (program produced product : Path) (subject next : Subject)
    (before after : Site) : Prop where
  text : ∃ text line, after.world.disk.readText product = .ok text ∧
    next = subject.adopt product line ∧ 1 ≤ line ∧ line ≤ lineCount text
  origin : ∃ made call content,
    after.world.calls = before.world.calls ++ made ++ [call] ∧ call.program = program ∧
    (host.launch (before.world.calls ++ made) call).disk.read produced = .ok content ∧
    after.world.disk.read product = .ok content

/-! ## Lines and texts -/

theorem not_empty_of_lineCount {b : ByteArray} {text : String}
    (h : String.fromUTF8? b = some text) (hl : 1 ≤ lineCount text) : b ≠ ByteArray.empty := by
  rintro rfl
  have hempty : String.fromUTF8? ByteArray.empty = some "" := by decide
  rw [hempty] at h
  cases h
  exact absurd hl (by decide)

/-- A text with a line is not one that reads as nothing, so it has the bytes of its source. -/
theorem bytes_of_readText {d d' : Disk} {source target : Path} {text : String}
    (htext : d'.readText target = .ok text) (hl : 1 ≤ lineCount text)
    (hread : ∀ b, d'.read target = .ok b → d.read source = .ok b ∨ b = ByteArray.empty) :
    ∃ b, d'.read target = .ok b ∧ d.read source = .ok b := by
  obtain ⟨b, hb, hutf8⟩ := readText_eq_ok htext
  exact ⟨b, hb, (hread b hb).resolve_right (not_empty_of_lineCount hutf8 hl)⟩

/-- What is left at `source` is adopted under the name of `product`, with one of its lines, and
nothing is called for it. -/
structure Adopted (source product : Path) (subject next : Subject) (before after : Site) : Prop where
  same : SameCalls before after
  text : ∃ text line, after.world.disk.readText product = .ok text ∧
    next = subject.adopt product line ∧ 1 ≤ line ∧ line ≤ lineCount text
  content : ∃ content, before.world.disk.read source = .ok content ∧
    after.world.disk.read product = .ok content

/-- A product that can only have come out with the bytes of its source, or empty, is adopted as soon
as it has the line that is reported for it. -/
theorem Adopted.of_line {source product : Path} {subject : Subject} {before after : Site}
    {text : String} {line : Nat} (hsame : SameCalls before after)
    (htext : after.world.disk.readText product = .ok text) (hpos : 1 ≤ line)
    (hle : line ≤ lineCount text)
    (hread : ∀ b, after.world.disk.read product = .ok b →
      before.world.disk.read source = .ok b ∨ b = ByteArray.empty) :
    Adopted source product subject (subject.adopt product line) before after := by
  obtain ⟨content, hcontent, hsource⟩ := bytes_of_readText htext (Nat.le_trans hpos hle) hread
  exact ⟨hsame, ⟨text, line, htext, rfl, hpos, hle⟩, content, hsource, hcontent⟩

/-- What the last call left in its product and is adopted from there. -/
theorem Adopted.adoption {host : Host} {program produced product : Path} {subject next : Subject}
    {before called after : Site} {made : List Call} {call : Call}
    (h : Adopted produced product subject next called after)
    (hcalls : called.world.calls = before.world.calls ++ made ++ [call])
    (hprogram : call.program = program)
    (hdisk : called.world.disk = (host.launch (before.world.calls ++ made) call).disk) :
    Adoption host program produced product subject next before after := by
  obtain ⟨content, hleft, hread⟩ := h.content
  rw [hdisk] at hleft
  exact ⟨h.text, made, call, content, h.same.calls.trans hcalls, hprogram, hleft, hread⟩

theorem readSingleFile_pos {d : Disk} {p : Path} {n : Nat}
    (h : Slice.readSingleFile d p = some n) : 1 ≤ n := by
  unfold Slice.readSingleFile at h
  split at h
  · obtain ⟨-, hn⟩ := Option.filter_eq_some_iff.mp h
    simp only [Bool.and_eq_true, decide_eq_true_eq] at hn
    exact hn.1
  · cases h

theorem adjustedLine_eq_ok {p : Path} {w w' : World} {r : Option Nat}
    (h : adjustedLine p w = (.ok r, w')) : r = Slice.readSingleFile w.disk p ∧ w = w' := by
  cases h
  exact ⟨rfl, rfl⟩

theorem countLines_eq_ok {p : Path} {w w' : World} {n : Nat} (h : countLines p w = (.ok n, w')) :
    (∃ text, w.disk.readText p = .ok text ∧ n = lineCount text) ∧ w = w' := by
  obtain ⟨text, w₁, hask, h⟩ := bind_eq_ok h
  obtain ⟨htext, rfl⟩ := Action.ask_eq_ok hask
  obtain ⟨rfl, rfl⟩ := pure_eq_ok h
  exact ⟨⟨text, htext, rfl⟩, rfl⟩

theorem extractLine_eq_ok {subject : Subject} {e : Extract} {w w' : World} {line : Nat}
    (h : extractLine subject e w = (.ok line, w')) (hline : 1 ≤ subject.failureLine) :
    1 ≤ line ∧ w'.disk = w.disk ∧ w'.calls = w.calls := by
  obtain ⟨r, w₁, hr, h⟩ := bind_eq_ok h
  obtain ⟨hread, rfl⟩ := adjustedLine_eq_ok hr
  split at h
  · obtain ⟨rfl, rfl⟩ := pure_eq_ok h
    exact ⟨readSingleFile_pos hread.symm, rfl, rfl⟩
  · cases h
    exact ⟨hline, rfl, rfl⟩

theorem launch_eq_ok {host : Host} {program cwd : Path} {argv : List String} {w w' : World}
    {code : Int} (h : Action.launch host program argv cwd w = (.ok code, w')) :
    ∃ call, w'.calls = w.calls ++ [call] ∧ call.program = program ∧
      w'.disk = (host.launch w.calls call).disk := by
  obtain ⟨-, rfl⟩ := Prod.mk.inj h
  exact ⟨⟨program, argv, cwd, w.disk⟩, rfl, rfl, rfl⟩

theorem runChecked_eq_ok {host : Host} {c : Command} {cwd : Path} {w w' : World}
    (h : c.runChecked host cwd w = (.ok (), w')) :
    ∃ call, w'.calls = w.calls ++ [call] ∧ call.program = c.program ∧
      w'.disk = (host.launch w.calls call).disk := by
  obtain ⟨code, w₁, hlaunch, h⟩ := bind_eq_ok h
  split at h
  · cases h
  · obtain ⟨-, rfl⟩ := pure_eq_ok h
    exact launch_eq_ok hlaunch

/-! ## Slices -/

section

variable {host : Host} {s : Settings} {subject next : Subject} {site site' : Site} {l : Location}
  (hl : ∀ n ∈ l, IsName n) (hroot : site.workspace.root = pathOf l)
include hl hroot

theorem extract_eq_ok {unionFile : Path} {owner : Stage} {e : Extract}
    (h : extract host s subject unionFile owner site = (.ok e, site')) :
    e.produced = pathOf (l ++ [Artifacts.sliceStem ++ "." ++ subject.extension]) ∧
      site'.workspace.root = pathOf l ∧
      ∃ call, site'.world.calls = site.world.calls ++ [call] ∧
        call.program = s.tools.sliceExtractor ∧
        site'.world.disk = (host.launch site.world.calls call).disk := by
  obtain ⟨produced, s₁, hproduced, h⟩ := bind_eq_ok h
  obtain ⟨hsame₁, rfl⟩ := prepareOutput_eq_ok hproduced
  obtain ⟨adjusted, s₂, hadjusted, h⟩ := bind_eq_ok h
  obtain ⟨hsame₂, rfl⟩ := prepareOutput_eq_ok hadjusted
  have hsame := hsame₁.trans hsame₂
  obtain ⟨w, s₃, hw, h⟩ := bind_eq_ok h
  obtain ⟨rfl, rfl⟩ := workspace_eq_ok hw
  obtain ⟨_, s₄, hrun, h⟩ := bind_eq_ok h
  obtain ⟨w, hchecked, rfl⟩ := lift_eq_ok hrun
  obtain ⟨rfl, rfl⟩ := pure_eq_ok h
  obtain ⟨call, hcalls, hprogram, hdisk⟩ := runChecked_eq_ok hchecked
  rw [hsame.calls] at hcalls hdisk
  exact ⟨Workspace.path_eq hl rfl (names_extract subject) hroot, hsame.root.trans hroot, call,
    hcalls, hprogram, hdisk⟩

theorem adoptExtract_eq_ok {p : Pass} {e : Extract}
    (he : e.produced = pathOf (l ++ [Artifacts.sliceStem ++ "." ++ subject.extension]))
    (hd : site.world.disk.Linkless) (hline : 1 ≤ subject.failureLine)
    (h : adoptExtract subject e p.stage (p.productName subject.extension) site =
      (.ok next, site')) :
    Adopted e.produced (pathOf (l ++ [p.productName subject.extension])) subject next site
      site' := by
  have hsource : ∀ k ∈ l ++ [Artifacts.sliceStem ++ "." ++ subject.extension], IsName k :=
    List.forall_mem_append.mpr ⟨hl, names_extract subject⟩
  have hne : l ++ [Artifacts.sliceStem ++ "." ++ subject.extension] ≠
      l ++ [p.productName subject.extension] := by
    simpa using p.extract_ne_productName subject.extension
  have htarget : ∀ k ∈ l ++ [p.productName subject.extension], IsName k :=
    List.forall_mem_append.mpr ⟨hl, p.names_product subject⟩
  have hpath : site.workspace.path (p.productName subject.extension) =
      pathOf (l ++ [p.productName subject.extension]) :=
    Workspace.path_eq hl rfl (p.names_product subject) hroot
  obtain ⟨d, s₁, hget, h⟩ := bind_eq_ok h
  obtain ⟨w, hw, rfl⟩ := lift_eq_ok hget
  cases hw
  split at h
  · cases h
  · obtain ⟨line, s₂, hextracted, h⟩ := bind_eq_ok h
    obtain ⟨w, hlineOk, rfl⟩ := lift_eq_ok hextracted
    obtain ⟨hpos, hdisk, hcalls⟩ := extractLine_eq_ok hlineOk hline
    obtain ⟨product, s₃, hmove, h⟩ := bind_eq_ok h
    rw [he] at hmove ⊢
    rw [← hdisk] at hd
    obtain ⟨hsame, rfl, hread⟩ :=
      moveIn_eq_ok (s := ⟨w, site.workspace⟩) hd hsource htarget hne hpath hmove
    obtain ⟨count, s₄, hcount, h⟩ := bind_eq_ok h
    obtain ⟨w, hcounted, rfl⟩ := lift_eq_ok hcount
    obtain ⟨⟨text, htext, rfl⟩, rfl⟩ := countLines_eq_ok hcounted
    dsimp only at h
    split at h
    · cases h
    · rename_i hle
      obtain ⟨rfl, rfl⟩ := pure_eq_ok h
      rw [hdisk] at hread
      exact .of_line ⟨hsame.calls.trans hcalls, hsame.root⟩ htext hpos (Nat.not_lt.mp hle) hread

end

/-! ## Reductions -/

theorem clampLine_eq_ok {line count n : Nat} {w w' : World}
    (h : Reducer.clampLine line count w = (.ok n, w')) :
    n = min line count ∧ w'.disk = w.disk ∧ w'.calls = w.calls := by
  unfold Reducer.clampLine at h
  dsimp only at h
  split at h <;> cases h <;> exact ⟨rfl, rfl, rfl⟩

theorem product_of_productOf {s : Settings} {r : Reducer} {subject : Subject} {d : Disk}
    {result : Reducer.Result} {output : Path} (h : r.productOf s subject d result = .ok output) :
    result.product = some output := by
  unfold Reducer.productOf at h
  split at h
  · rename_i p hp
    split at h
    · cases h
      exact hp
    · split at h <;> cases h
  · split at h <;> cases h

section

variable {host : Host} {s : Settings} {r : Reducer} {subject next : Subject} {site site' : Site}
  {l : Location} (hl : ∀ n ∈ l, IsName n) (hroot : site.workspace.root = pathOf l)
include hl hroot

theorem invoke_eq_ok {result : Reducer.Result}
    (h : r.invoke host s subject site = (.ok result, site')) :
    (∀ output, result.product = some output →
        output = pathOf (l ++ [Artifacts.reducedDir,
          Artifacts.reducedStem ++ "." ++ subject.extension])) ∧
      site'.workspace.root = pathOf l ∧
      ∃ call, site'.world.calls = site.world.calls ++ [call] ∧ call.program = r.program s ∧
        site'.world.disk = (host.launch site.world.calls call).disk := by
  obtain ⟨dir, s₁, hdir, h⟩ := bind_eq_ok h
  have hsame₁ := createDir_eq_ok hdir
  obtain ⟨output, s₂, houtput, h⟩ := bind_eq_ok h
  obtain ⟨hsame₂, rfl⟩ := prepareOutput_eq_ok houtput
  obtain ⟨adjusted, s₃, hadjusted, h⟩ := bind_eq_ok h
  obtain ⟨hsame₃, -⟩ := prepareOutput_eq_ok hadjusted
  have hsame := (hsame₁.trans hsame₂).trans hsame₃
  obtain ⟨w, s₄, hw, h⟩ := bind_eq_ok h
  obtain ⟨rfl, rfl⟩ := workspace_eq_ok hw
  obtain ⟨code, s₅, hrun, h⟩ := bind_eq_ok h
  obtain ⟨w, hlaunch, rfl⟩ := lift_eq_ok hrun
  obtain ⟨call, hcalls, hprogram, hdisk⟩ := launch_eq_ok hlaunch
  rw [hsame.calls] at hcalls hdisk
  obtain ⟨d, s₆, hget, h⟩ := bind_eq_ok h
  obtain ⟨w', hw', rfl⟩ := lift_eq_ok hget
  cases hw'
  obtain ⟨rfl, rfl⟩ := pure_eq_ok h
  refine ⟨fun output hproduct => ?_, hsame.root.trans hroot, call, hcalls, hprogram, hdisk⟩
  simp only at hproduct
  split at hproduct
  · cases hproduct
    exact Workspace.path_eq hl rfl (names_reduced subject) (hsame₁.root.trans hroot)
  · cases hproduct

theorem adopt_eq_ok {result : Reducer.Result}
    (hproduct : ∀ output, result.product = some output →
      output = pathOf (l ++ [Artifacts.reducedDir,
        Artifacts.reducedStem ++ "." ++ subject.extension]))
    (hd : site.world.disk.Linkless) (hline : 1 ≤ subject.failureLine)
    (h : r.adopt s subject result site = (.ok next, site')) :
    Adopted (pathOf (l ++ [Artifacts.reducedDir, Artifacts.reducedStem ++ "." ++ subject.extension]))
      (pathOf (l ++ [r.productName subject.extension])) subject next site site' := by
  have hsource : ∀ k ∈ l ++ [Artifacts.reducedDir,
      Artifacts.reducedStem ++ "." ++ subject.extension], IsName k :=
    List.forall_mem_append.mpr ⟨hl, names_reduced subject⟩
  have htarget : ∀ k ∈ l ++ [r.productName subject.extension], IsName k :=
    List.forall_mem_append.mpr ⟨hl, r.names_product subject⟩
  have hne : l ++ [Artifacts.reducedDir, Artifacts.reducedStem ++ "." ++ subject.extension] ≠
      l ++ [r.productName subject.extension] := by simp
  have hpath : site.workspace.path (r.productName subject.extension) =
      pathOf (l ++ [r.productName subject.extension]) :=
    Workspace.path_eq hl rfl (r.names_product subject) hroot
  obtain ⟨d, s₁, hget, h⟩ := bind_eq_ok h
  obtain ⟨w, hw, rfl⟩ := lift_eq_ok hget
  cases hw
  cases houtput : r.productOf s subject site.world.disk result with
  | error e =>
    rw [houtput] at h
    cases h
  | ok output =>
    rw [houtput] at h
    have h : (do
        let product ← Workspace.copyIn output (r.productName subject.extension) r.stage
        let count ← countLines product
        if count = 0 then throw (.emptyReduction (r.command s subject).toolName)
        let reported ← adjustedLine ((← Work.workspace).path Artifacts.adjustedLineFile)
        let line ← Reducer.clampLine (reported.getD subject.failureLine) count
        return subject.adopt product line : Work Subject) site = (.ok next, site') := h
    rw [hproduct output (product_of_productOf houtput)] at h
    obtain ⟨product, s₂, hcopy, h⟩ := bind_eq_ok h
    obtain ⟨hsame, rfl, hread⟩ :=
      copyIn_eq_ok (s := ⟨site.world, site.workspace⟩) hd hsource htarget hne hpath hcopy
    obtain ⟨count, s₃, hcount, h⟩ := bind_eq_ok h
    obtain ⟨w, hcounted, rfl⟩ := lift_eq_ok hcount
    obtain ⟨⟨text, htext, rfl⟩, rfl⟩ := countLines_eq_ok hcounted
    dsimp only at h
    split at h
    · cases h
    · rename_i hnonempty
      obtain ⟨w, s₄, hw, h⟩ := bind_eq_ok h
      obtain ⟨rfl, rfl⟩ := workspace_eq_ok hw
      obtain ⟨reported, s₅, hreported, h⟩ := bind_eq_ok h
      obtain ⟨w, hadjusted, rfl⟩ := lift_eq_ok hreported
      obtain ⟨hreport, rfl⟩ := adjustedLine_eq_ok hadjusted
      obtain ⟨line, s₆, hclamp, h⟩ := bind_eq_ok h
      obtain ⟨w, hclamped, rfl⟩ := lift_eq_ok hclamp
      obtain ⟨rfl, rfl⟩ := pure_eq_ok h
      obtain ⟨rfl, hdisk, hcalls⟩ := clampLine_eq_ok hclamped
      have hreported : 1 ≤ reported.getD subject.failureLine := by
        cases reported with
        | none => exact hline
        | some n => exact readSingleFile_pos hreport.symm
      have hcount : 1 ≤ lineCount text := Nat.pos_of_ne_zero hnonempty
      rw [← hdisk] at htext hread
      exact .of_line ⟨hcalls.trans hsame.calls, hsame.root⟩ htext
        (Nat.le_min.mpr ⟨hreported, hcount⟩) (Nat.min_le_right _ _) hread

end

theorem countLines_calls (p : Path) (w : World) : (countLines p w).2.calls = w.calls := by
  unfold countLines
  cases h : Action.ask (·.readText p) w with
  | mk r w' =>
    obtain rfl := Action.ask_world h
    cases r with
    | ok text => rw [bind_of_ok h]; rfl
    | error e => rw [bind_of_error h]

/-- What follows the call of a reducer calls nothing. -/
theorem adopt_quiet (s : Settings) (r : Reducer) (subject : Subject) (result : Reducer.Result) :
    Quiet (r.adopt s subject result) := by
  have hclamp (line count : Nat) (w : World) : (Reducer.clampLine line count w).2.calls = w.calls := by
    unfold Reducer.clampLine
    dsimp only
    split <;> rfl
  refine (Quiet.lift fun _ => rfl).bind fun d => ?_
  split
  · exact ⟨fun _ _ => trivial, fun _ _ => ⟨rfl, rfl⟩, fun _ _ _ _ => trivial⟩
  refine (Quiet.copyIn _ _ _).bind fun product => ?_
  refine (Quiet.lift (countLines_calls product)).bind fun count => ?_
  dsimp only
  split
  · exact .abort _ _
  refine Quiet.workspace.bind fun w => ?_
  refine (Quiet.lift fun _ => rfl).bind fun reported => ?_
  exact (Quiet.lift (hclamp _ _)).bind fun line => .pure _

/-- What follows the call of the extractor calls nothing. -/
theorem adoptExtract_quiet (subject : Subject) (e : Extract) (owner : Stage) (name : String) :
    Quiet (adoptExtract subject e owner name) := by
  have hline (w : World) : (extractLine subject e w).2.calls = w.calls := by
    unfold extractLine
    rw [bind_of_ok (show adjustedLine e.adjusted w =
      (.ok (Slice.readSingleFile w.disk e.adjusted), w) from rfl)]
    cases Slice.readSingleFile w.disk e.adjusted <;> rfl
  refine (Quiet.lift fun _ => rfl).bind fun d => ?_
  split
  · exact .abort _ _
  refine (Quiet.lift hline).bind fun line => ?_
  refine (Quiet.moveIn _ _ _).bind fun product => ?_
  refine (Quiet.lift (countLines_calls product)).bind fun count => ?_
  dsimp only
  split
  · exact .abort _ _
  · exact .pure _

section

variable {q : Path} {free : Location → Prop} (hp : Permits (Spares q) free) {host : Host}
  {s : Settings} {subject next : Subject} {site site' : Site} {l : Location}
  (hl : ∀ n ∈ l, IsName n) (hroot : site.workspace.root = pathOf l) (hmount : Mounts s)
  (hd : site.world.disk.Linkless) (hline : 1 ≤ subject.failureLine)
  (hanswered : ∀ made, site'.world.calls = site.world.calls ++ made →
    Answered host (Spares q) site.world.calls made)
include hp hl hroot hd hline hanswered

include hmount in
theorem passRun_adoption {p : Pass} {cs : List Criterion}
    (htouch : ∀ m, Touches s subject.extension p.stage m → free (l ++ m))
    (h : p.run host s subject cs site = (.ok next, site')) :
    Adoption host s.tools.sliceExtractor
      (pathOf (l ++ [Artifacts.sliceStem ++ "." ++ subject.extension]))
      (pathOf (l ++ [p.productName subject.extension])) subject next site site' := by
  obtain ⟨unionFile, s₁, hunite, h⟩ := bind_eq_ok h
  obtain ⟨e, s₂, hextract, hadopt⟩ := bind_eq_ok h
  obtain ⟨hroot₁, hpass₁, -⟩ :=
    (unite_stays hp hl subject hmount cs htouch).of_run hroot hunite
  obtain ⟨-, hpass₂, -⟩ :=
    (extract_stays hp hl subject unionFile htouch).of_run hroot₁ hextract
  obtain ⟨hproduced, hroot₂, call, hcalls, hprogram, hdisk⟩ := extract_eq_ok hl hroot₁ hextract
  have hcalls₃ : s₂.world.calls = site'.world.calls :=
    ((adoptExtract_quiet subject e p.stage (p.productName subject.extension)).of_run hadopt).calls.symm
  have hd₂ : s₂.world.disk.Linkless :=
    ((hp.passes_trans hpass₁ hpass₂).related (hcalls₃ ▸ List.prefix_refl _) hanswered hd).1
  have hadopted := adoptExtract_eq_ok hl hroot₂ hproduced hd₂ hline hadopt
  obtain ⟨made, hmade, -⟩ := hpass₁
  rw [hmade] at hcalls hdisk
  rw [hproduced] at hadopted
  exact hadopted.adoption hcalls hprogram hdisk

theorem reducerRun_adoption {r : Reducer}
    (htouch : ∀ m, Touches s subject.extension r.stage m → free (l ++ m))
    (h : r.run host s subject site = (.ok next, site')) :
    Adoption host (r.program s)
      (pathOf (l ++ [Artifacts.reducedDir, Artifacts.reducedStem ++ "." ++ subject.extension]))
      (pathOf (l ++ [r.productName subject.extension])) subject next site site' := by
  obtain ⟨result, s₁, hinvoke, hadopt⟩ := bind_eq_ok h
  obtain ⟨hroot₁, hpass₁, -⟩ := (invoke_stays hp hl subject htouch).of_run hroot hinvoke
  obtain ⟨-, hpass₂, -⟩ :=
    (@adopt_stays _ _ hp host s l hl subject r htouch result).of_run hroot₁ hadopt
  obtain ⟨hproduct, -, call, hcalls, hprogram, hdisk⟩ := invoke_eq_ok hl hroot hinvoke
  have hd₁ : s₁.world.disk.Linkless := (hpass₁.related hpass₂.calls hanswered hd).1
  have hadopted := adopt_eq_ok hl hroot₁ hproduct hd₁ hline hadopt
  rw [← List.append_nil site.world.calls] at hcalls hdisk
  exact hadopted.adoption hcalls hprogram hdisk

end

end Whittle.Pipeline
