import Whittle.Proofs.Pipeline.Products
import Whittle.Proofs.Pipeline.Queries

/-!
# What the static slicer reads

On a disk without links, what is made for the static slicer is the text of the current program, or that
text with its arguments planted (`Rendering`), and the slicer is asked for the criterion on its line
there (`Rendering.sameLine`). It is so when the slicer is called, for what a container sees as well (`Fed`).
-/

namespace Whittle

open Text Disk Insertion Grammar

/-! ## Without calls -/

/-- What the tools have to keep is kept where none is called. -/
theorem Passes.uncalled {host : Host} {T : Disk → Disk → Prop} {w w' : World}
    (h : Passes host T w w') (hcalls : w'.calls = w.calls) : T w.disk w'.disk := by
  obtain ⟨made, hmade, hT⟩ := h
  have hnone : made = [] := by
    rw [hcalls] at hmade
    simpa using hmade
  exact hT (hnone ▸ trivial)

namespace Disk

/-- What was copied to a place without links can be found there. -/
theorem handy_of_copy {d d' : Disk} (hd : d.Linkless) {source : Path} {P : Location}
    (hP : ∀ n ∈ P, IsName n) (h : d.copy source (pathOf P) = .ok d') : d.Handy P := by
  obtain ⟨goal, hcopied⟩ := copied h
  obtain ⟨hcheck, hreached, -⟩ := (locate_pathOf_iff (hd.clear P) hP).mp hcopied.located
  exact ⟨hcheck, hreached⟩

/-- Where nothing stood, and there are no links, a copy is a file with the bytes of its source. -/
theorem copied_to_free {d d' : Disk} (hd : d.Linkless) {m P : Location} (hm : ∀ n ∈ m, IsName n)
    (hP : ∀ n ∈ P, IsName n) (hne : m ≠ P) (hnone : d.get? P = none) {content : ByteArray}
    (hread : d.read (pathOf m) = .ok content) (h : d.copy (pathOf m) (pathOf P) = .ok d') :
    d'.Handy P ∧ ∃ id x, d'.get? P = some (.file id content x) := by
  have hhandy := handy_of_copy hd hP h
  obtain ⟨place, id, b, x, hstat⟩ := copy_source h
  obtain ⟨-, -, rfl, -⟩ := (stat_pathOf_iff (hd.clear m) hm).mp hstat
  obtain rfl : b = content := by
    unfold Disk.read at hread
    rw [hstat] at hread
    exact Except.ok.inj hread
  obtain ⟨d₁, id₁, hcopy, -, halters⟩ := hhandy.copy (.inl hnone) hstat hne
  cases h.symm.trans hcopy
  exact ⟨hhandy.beside (fun _ => halters.other) fun _ => rfl, id₁, x, halters.self⟩

end Disk

namespace Workspace

section

variable {s s' : Site} {name : String} {owner : Stage} {p : Path} {P : Location}
  (hpath : s.workspace.path name = pathOf P)
  (h : prepareOutput name owner s = (.ok p, s'))
include hpath h

theorem prepareOutput_stale :
    ∃ s₁, s₁.world = s.world ∧ removeStale (pathOf P) s₁ = (.ok (), s') ∧
      (s'.world.disk = s.world.disk ∨ s.world.disk.unlink (pathOf P) = .ok s'.world.disk) := by
  obtain ⟨k, s₁, hk, h⟩ := bind_eq_ok h
  obtain ⟨rfl, rfl⟩ := workspace_eq_ok hk
  rw [hpath] at h
  obtain ⟨new, s₂, hregister, h⟩ := bind_eq_ok h
  obtain ⟨-, hworld⟩ := register_eq_ok hregister
  obtain ⟨_, s₃, hstale, h⟩ := bind_eq_ok h
  obtain ⟨-, rfl⟩ := pure_eq_ok h
  exact ⟨s₂, hworld, hstale, hworld ▸ (removeStale_eq_ok hstale).2⟩

/-- Where a product can be made whose place has been prepared, nothing stands. -/
theorem prepareOutput_clears (hd : s.world.disk.Linkless) (hP : s'.world.disk.Handy P) :
    s'.world.disk.get? P = none := by
  obtain ⟨s₁, hworld, hstale, hdisk⟩ := prepareOutput_stale hpath h
  rw [← hworld] at hdisk hd
  have hother : ∀ l, l ≠ P → s₁.world.disk.get? l = s'.world.disk.get? l := by
    rcases hdisk with e | hunlink
    · rw [e]
      exact fun _ _ => rfl
    · exact fun l hl => ((unlink_at (hd.straight P) hP.reached.isName hunlink).2.other hl).symm
  have hhandy : s₁.world.disk.Handy P := hP.beside hother fun _ => rfl
  by_cases hdir : s₁.world.disk.get? P = some .dir
  · have hunlink : s₁.world.disk.unlink (pathOf P) = .error (.system .isDirectory) := by
      simp only [Disk.unlink, hhandy.locateEntry, hdir]
    obtain ⟨w, hw, -⟩ := lift_eq_ok hstale
    obtain ⟨d, hd', -⟩ := Action.change_eq_ok hw
    rw [hunlink] at hd'
    cases hd'
  · obtain ⟨s₂, hok, hsets⟩ := removeStale_ok hhandy hdir
    cases hok.symm.trans hstale
    exact hsets.alters.self

theorem prepareOutput_spares {m : Location} (hm : ∀ n ∈ m, IsName n) (hP : ∀ n ∈ P, IsName n)
    (hPm : ¬ P <+: m) : Spares (pathOf m) s.world.disk s'.world.disk := by
  obtain ⟨s₁, -, -, e | hunlink⟩ := prepareOutput_stale hpath h
  · rw [e]
    exact .refl _ _
  · exact spares_unlink hm hP hPm hunlink

end

end Workspace

namespace Pipeline

/-! ## The text for a criterion -/

/-- What a slicer may be given for a criterion of a program with a text, and the criterion that it is
asked for: the text as it is, or with the arguments planted. -/
inductive Rendering (subject : Subject) (source : String) (c : Criterion) :
    String → Criterion → Prop
  | plain : Rendering subject source c source c
  | planted {text : String} {planting : Planting}
    (h : plant subject.language source subject.arguments = .ok (text, planting)) :
    Rendering subject source c text (planting.shift c)

/-- What the slicer is asked for stands on the line of a text that the criterion is on in the source;
at most the end of the line is written in another way. -/
def SameLine (source text : String) (c asked : Criterion) : Prop :=
  asked.name = c.name ∧ (lineAt text asked.line = lineAt source c.line ∨
    lineAt text asked.line = (lineAt source c.line).map chomp)

/-- The slicer is asked for the line of the criterion, if the braces that the parser reports are on
lines of the source. -/
theorem Rendering.sameLine {subject : Subject} {source text : String} {c asked : Criterion}
    (h : Rendering subject source c text asked)
    (hparse : ∀ t, parseUnit subject.language source = .ok t → t.FitsIn source) (hc : 1 ≤ c.line)
    (hlimit : c.line + 2 < lineLimit) : SameLine source text c asked := by
  cases h with
  | plain => exact ⟨rfl, .inl rfl⟩
  | @planted _ planting hplant =>
    rw [Planting.shift_eq hc hlimit]
    refine ⟨rfl, .inr ?_⟩
    obtain ⟨e, count, values, hfound, hnames, -, hline, htext⟩ := plantWith_ok hplant
    obtain ⟨t, htree, hentry⟩ := entryOf_eq_ok hfound
    have hfits := hparse t htree
    have hin : e.openLine ≤ lineCount source :=
      (hfits.ordered e hentry).trans (hfits.closes e hentry)
    obtain ⟨hcount, hvalues⟩ := EntryPoint.mem_of_countAndValues hnames
    obtain ⟨-, hlacks⟩ := Tree.firstEntry_fits t hfits.names hentry
    have hopen : planting.line - 1 = e.openLine := by omega
    have hlines : lines text = (insertLines (planting.line - 1)
        (plantedLines (words subject.arguments) count values) (lines source)).map chomp := by
      rw [htext, hopen]
      refine lines_joinLines (by simp [insertLines, plantedLines]) fun k hk => ?_
      rcases mem_insertLines hk with hk | hk
      · exact lacks_plantedLines (by decide) (by decide) (hlacks _ hcount) (hlacks _ hvalues) k hk
      · exact newline_not_mem_lines source k hk
    exact Planting.lineAt_place (by omega) (hopen ▸ hin) rfl hlines hc

/-- The name of what the static slicer reads for the criterion at an index. -/
def staticName (subject : Subject) (i : Nat) : String :=
  "static_input_" ++ natText i ++ "." ++ subject.extension

theorem isName_staticName (subject : Subject) (i : Nat) : IsName (staticName subject i) := by
  unfold staticName
  rw [String.append_assoc]
  exact isName_numbered (by decide) i (Lacks.append (by decide) (lacks_extension subject))

theorem staticName_ne_lines (subject : Subject) (i : Nat) :
    staticName subject i ≠ Artifacts.sliceLinesFile := by
  have hfront : Diverge "static_input_" Artifacts.sliceLinesFile := by decide
  have := hfront.append_ne (natText i ++ "." ++ subject.extension) ""
  simpa [staticName, String.append_assoc] using this

section

variable {s : Settings} {subject : Subject} {l : Location} (hl : ∀ n ∈ l, IsName n) {m : Location}
  (hm : ∀ n ∈ m, IsName n) (hsource : subject.source = pathOf m)
  (htouch : ∀ k, Touches s subject.extension .staticSlice k → ¬ l ++ k <+: m) {x y : Site}
  (hroot : x.workspace.root = pathOf l) (hd : x.world.disk.Linkless) {source : String}
  (htext : x.world.disk.readText subject.source = .ok source)
include hl hm hsource htouch hroot hd htext

/-- The copy for a criterion is the program, and it can be found where it was made. -/
theorem copyProgram_eq_ok {i : Nat} {input : Path} {s₁ s₂ : Site}
    (hprepare : Workspace.prepareOutput (staticName subject i) .staticSlice x = (.ok input, s₁))
    (hcopy : (liftM (Action.change (·.copy subject.source input)) : Work Unit) s₁ = (.ok (), s₂)) :
    input = pathOf (l ++ [staticName subject i]) ∧
      s₂.world.disk.Handy (l ++ [staticName subject i]) ∧
      ∃ id content b, s₂.world.disk.get? (l ++ [staticName subject i]) = some (.file id content b) ∧
        String.fromUTF8? content = some source := by
  have hname : ∀ n ∈ [staticName subject i], IsName n := by simpa using isName_staticName subject i
  have hP := List.forall_mem_append.mpr ⟨hl, hname⟩
  have hpath : x.workspace.path (staticName subject i) = pathOf (l ++ [staticName subject i]) :=
    Workspace.path_eq hl rfl hname hroot
  have hne : ¬ l ++ [staticName subject i] <+: m := htouch _ (.input i)
  obtain rfl : input = pathOf (l ++ [staticName subject i]) :=
    (prepareOutput_eq_ok hprepare).2.trans hpath
  obtain ⟨hd₁, hread⟩ := Workspace.prepareOutput_spares hpath hprepare hm hP hne hd
  obtain ⟨content, hcontent, hutf8⟩ := readText_eq_ok htext
  obtain ⟨w, hw, rfl⟩ := lift_eq_ok hcopy
  obtain ⟨d, hcopied, rfl⟩ := Action.change_eq_ok hw
  rw [hsource] at hcopied
  have hnone :=
    Workspace.prepareOutput_clears hpath hprepare hd (handy_of_copy hd₁ hP hcopied)
  obtain ⟨hhandy, id, b, hnode⟩ := copied_to_free hd₁ hm hP
    (fun e => hne (e ▸ List.prefix_refl _)) hnone (hread content (hsource ▸ hcontent)) hcopied
  exact ⟨rfl, hhandy, id, content, b, hnode, hutf8⟩

theorem staticInput_renders {i : Nat} {input : Path} {planting : Option Planting}
    (h : Pass.staticInput s subject i x = (.ok (input, planting), y)) :
    input = pathOf (l ++ [staticName subject i]) ∧
      y.world.disk.Handy (l ++ [staticName subject i]) ∧
      ∃ id content b text,
        y.world.disk.get? (l ++ [staticName subject i]) = some (.file id content b) ∧
        String.fromUTF8? content = some text ∧
        ∀ c, Rendering subject source c text ((planting.map fun p => p.shift c).getD c) := by
  obtain ⟨p, s₁, hprepare, h⟩ := bind_eq_ok h
  obtain ⟨_, s₂, hcopy, h⟩ := bind_eq_ok h
  obtain ⟨rfl, hhandy, id, content, b, hnode, hutf8⟩ :=
    copyProgram_eq_ok hl hm hsource htouch hroot hd htext hprepare hcopy
  split at h
  · obtain ⟨r, s₃, hplant, h⟩ := bind_eq_ok h
    rw [Work.attempt_apply] at hplant
    cases hplanted : plant subject.language source subject.arguments with
    | ok r' =>
      obtain ⟨text, p⟩ := r'
      obtain ⟨s₄, id₄, x₄, hrun, hsets⟩ := Bench.plantFile_ok hhandy hnode hutf8 hplanted
      rw [hrun] at hplant
      obtain ⟨rfl, rfl⟩ := pure_eq_ok hplant
      obtain ⟨he, rfl⟩ := pure_eq_ok h
      obtain ⟨rfl, rfl⟩ := Prod.mk.inj he
      exact ⟨rfl, hsets.handy hhandy fun _ => rfl, id₄, _, x₄, text, hsets.alters.self,
        fromUTF8?_toUTF8 text, fun c => .planted hplanted⟩
    | error e =>
      rw [Bench.plantFile_error hhandy hnode hutf8 hplanted] at hplant
      obtain ⟨rfl, rfl⟩ := pure_eq_ok hplant
      cases h
      exact ⟨rfl, hhandy, id, content, b, source, hnode, hutf8, fun c => .plain⟩
  · cases h
    exact ⟨rfl, hhandy, id, content, b, source, hnode, hutf8, fun c => .plain⟩

omit hsource hd htext in
/-- The program is not touched when it is copied for a criterion. -/
theorem staticInput_spares (host : Host) {i : Nat} {r : Path × Option Planting}
    (h : Pass.staticInput s subject i x = (.ok r, y)) :
    Spares (pathOf m) x.world.disk y.world.disk := by
  have hidle := (staticInput_idles s subject i).rel x trivial
  rw [h] at hidle
  have hfollows : Follows host (charter s subject.extension l (· = .staticSlice)) l []
      (Pass.staticInput s subject i) fun _ => True := by
    refine staticInput_follows hl subject ?_ i
    rfl
  have hstays := stays_of_stage (permits_spares hm) hfollows htouch
  exact (hstays.of_run hroot h).2.1.uncalled hidle.world.calls

end

/-! ## The way to the slicer -/

end Pipeline

/-- No link is made, and what stands at other places is left there. -/
def Disk.Elsewhere (U : Location → Prop) (d d' : Disk) : Prop :=
  d.Linkless → d'.Linkless ∧ ∀ P n, ¬ U P → d.get? P = some n → d'.get? P = some n

namespace Disk.Elsewhere

variable {U U' : Location → Prop} {d d₁ d₂ : Disk}

theorem refl (d : Disk) : Elsewhere U d d := fun hd => ⟨hd, fun _ _ _ h => h⟩

theorem trans (h : Elsewhere U d d₁) (h₁ : Elsewhere U d₁ d₂) : Elsewhere U d d₂ := by
  intro hd
  obtain ⟨hd₁, hkeep⟩ := h hd
  obtain ⟨hd₂, hkeep₁⟩ := h₁ hd₁
  exact ⟨hd₂, fun P n hP hn => hkeep₁ P n hP (hkeep P n hP hn)⟩

theorem mono (h : Elsewhere U d d₁) (hU : ∀ P, U P → U' P) : Elsewhere U' d d₁ := fun hd =>
  ⟨(h hd).1, fun P n hP => (h hd).2 P n fun hUP => hP (hU P hUP)⟩

theorem of_grows (h : Grows d d₁) : Elsewhere U d d₁ := fun hd =>
  ⟨fun P target hn => hd P target ((h.links P target).mp hn), fun _ _ _ hn => h.keeps hn⟩

theorem of_alters {P : Location} {n : Option Node} (h : Alters d d₁ P n)
    (hn : ∀ target, n ≠ some (.link target)) : Elsewhere (· = P) d d₁ := fun hd =>
  ⟨h.linkless hd hn, fun _ _ hQ hk => (h.other hQ).trans hk⟩

/-- A file is read as before if nothing is done there or above. -/
theorem readText (h : Elsewhere U d d₁) (hd : d.Linkless) {m : Location} (hm : ∀ n ∈ m, IsName n)
    (hU : ∀ P, U P → ¬ P <+: m) {text : String} (htext : d.readText (pathOf m) = .ok text) :
    d₁.readText (pathOf m) = .ok text := by
  obtain ⟨content, hread, hutf8⟩ := readText_eq_ok htext
  have hold : Holds m d d₁ := fun P n hP hn => (h hd).2 P n (fun hUP => hU P hUP hP) hn
  exact readText_of_read (read_of_holds (hd.clear m) hm hold hread) hutf8

end Disk.Elsewhere

namespace Workspace

variable {s s' : Site} {name : String} {owner : Stage} {p : Path} {P : Location}
  (hP : ∀ n ∈ P, IsName n) (hpath : s.workspace.path name = pathOf P)
include hP hpath

theorem prepareOutput_elsewhere (h : prepareOutput name owner s = (.ok p, s')) :
    Elsewhere (· = P) s.world.disk s'.world.disk := by
  obtain ⟨s₁, -, -, e | hunlink⟩ := prepareOutput_stale hpath h
  · rw [e]
    exact .refl _
  · exact fun hd => Elsewhere.of_alters (unlink_at (hd.straight P) hP hunlink).2 nofun hd

omit hP in
theorem createDir_grows (h : createDir name owner s = (.ok p, s')) :
    Grows s.world.disk s'.world.disk ∧ p = pathOf P := by
  rw [createDir_apply hpath, makeAt_apply] at h
  have hdisk : (if s.world.disk.pathExists (pathOf P) then s else s.register (pathOf P) owner).world =
      s.world := by split <;> rfl
  rw [hdisk] at h
  split at h
  · cases h
    exact ⟨grows_makeDirs _ _, rfl⟩
  · cases h

omit hP in
theorem copyIn_copies {source : Path} (h : copyIn source name owner s = (.ok p, s')) :
    s.world.disk.copy source (pathOf P) = .ok s'.world.disk := by
  obtain ⟨k, s₁, hk, h⟩ := bind_eq_ok h
  obtain ⟨rfl, rfl⟩ := workspace_eq_ok hk
  rw [hpath] at h
  obtain ⟨new, s₂, hregister, h⟩ := bind_eq_ok h
  obtain ⟨-, hworld⟩ := register_eq_ok hregister
  obtain ⟨_, s₃, hcopy, h⟩ := bind_eq_ok h
  obtain ⟨-, rfl⟩ := pure_eq_ok h
  obtain ⟨w, hw, rfl⟩ := lift_eq_ok hcopy
  obtain ⟨d, hcopied, rfl⟩ := Action.change_eq_ok hw
  rw [hworld] at hcopied
  split at hcopied
  · rename_i hd
    cases hcopied
    exact hd
  · cases hcopied

end Workspace

namespace Pipeline

/-- The place of the file of the lines that are kept. -/
abbrev linesAt (l : Location) : Location := l ++ [Artifacts.sliceLinesFile]

/-- Where the slicer of a pass is prepared for. -/
def Prepares (s : Settings) (p : Pass) (l P : Location) : Prop :=
  P = linesAt l ∨ s.backend = .container ∧ ∃ n, P = l ++ [(p.recipe s).mountDir, n]

section

variable {s : Settings} (hs : BuiltIn s) (hb : s.backend = .container) (p : Pass)
include hs hb

theorem mountDir_ne_lines : (p.recipe s).mountDir ≠ Artifacts.sliceLinesFile := by
  obtain ⟨hstatic, hdynamic⟩ := hs hb
  cases p with
  | static =>
    rw [Pass.recipe, hstatic]
    decide
  | dynamic =>
    rw [Pass.recipe, hdynamic]
    decide

variable {l : Location} (hl : ∀ n ∈ l, IsName n) {n : String} (hn : IsName n)
include hl hn

theorem names_mounted : ∀ k ∈ l ++ [(p.recipe s).mountDir, n], IsName k :=
  List.forall_mem_append.mpr ⟨hl, by simpa using ⟨hs.mounts hb p, hn⟩⟩

theorem path_mounted {x : Site} (hroot : x.workspace.root = pathOf l) :
    x.workspace.path ((p.recipe s).mountDir ++ "/" ++ n) =
      pathOf (l ++ [(p.recipe s).mountDir, n]) := by
  have hname : (p.recipe s).mountDir ++ "/" ++ n =
      String.intercalate "/" [(p.recipe s).mountDir, n] := rfl
  exact Workspace.path_eq hl hname (by simpa using ⟨hs.mounts hb p, hn⟩) hroot

end

section

variable {s : Settings} {p : Pass} (hs : BuiltIn s) {l : Location} (hl : ∀ n ∈ l, IsName n) {n : String}
  (hn : IsName n) {y z : Site} (hroot : y.workspace.root = pathOf l) (hd : y.world.disk.Linkless)
  {places : Path × Path}
  (h : p.preparation s (pathOf (l ++ [n])) y = (.ok places, z))
include hs hl hn hroot hd h

omit hd in
/-- What is done for a container: a directory is made, the input copied there, and the places of the
products cleared. -/
theorem preparation_container (hb : s.backend = .container) :
    ∃ d₁ d₂, Grows y.world.disk d₁ ∧
      d₁.copy (pathOf (l ++ [n])) (pathOf (l ++ [(p.recipe s).mountDir, n])) = .ok d₂ ∧
      Elsewhere (fun P => P = l ++ [(p.recipe s).mountDir, Artifacts.sliceLinesFile] ∨ P = linesAt l)
        d₂ z.world.disk := by
  have hmount : IsName (p.recipe s).mountDir := hs.mounts hb p
  have hlines : IsName Artifacts.sliceLinesFile := by decide
  have hfile : (pathOf (l ++ [n])).fileName = some n :=
    fileName_pathOf (List.forall_mem_append.mpr ⟨hl, by simpa using hn⟩)
  have hpath {k : String} (hk : IsName k) {x : Site} (hx : x.workspace.root = pathOf l) :
      x.workspace.path k = pathOf (l ++ [k]) := by
    have hname : k = String.intercalate "/" [k] := rfl
    exact Workspace.path_eq hl hname (by simpa using hk) hx
  simp only [Pass.preparation, hb, hfile] at h
  obtain ⟨mount, y₁, hmade, h⟩ := bind_eq_ok h
  obtain ⟨hgrows, -⟩ := Workspace.createDir_grows (hpath hmount hroot) hmade
  have hroot₁ := (createDir_eq_ok hmade).root.trans hroot
  obtain ⟨target, y₂, hcopy, h⟩ := bind_eq_ok h
  have hcopied := Workspace.copyIn_copies (path_mounted hs hb p hl hn hroot₁) hcopy
  have hroot₂ : y₂.workspace.root = pathOf l := by
    have := (Idles.copyIn (pathOf (l ++ [n])) ((p.recipe s).mountDir ++ "/" ++ n)
      p.stage).rel y₁ trivial
    rw [hcopy] at this
    exact this.root.trans hroot₁
  obtain ⟨produced, y₃, hproduced, h⟩ := bind_eq_ok h
  have hcleared := Workspace.prepareOutput_elsewhere (names_mounted hs hb p hl hlines)
    (path_mounted hs hb p hl hlines hroot₂) hproduced
  have hroot₃ := (prepareOutput_eq_ok hproduced).1.root.trans hroot₂
  obtain ⟨kept, y₄, hkept, h⟩ := bind_eq_ok h
  obtain ⟨-, rfl⟩ := pure_eq_ok h
  have hlast := Workspace.prepareOutput_elsewhere (P := linesAt l)
    (List.forall_mem_append.mpr ⟨hl, by simpa using hlines⟩) (hpath hlines hroot₃) hkept
  exact ⟨_, _, hgrows, hcopied, (hcleared.mono fun _ => .inl).trans (hlast.mono fun _ => .inr)⟩

theorem preparation_elsewhere : Elsewhere (Prepares s p l) y.world.disk z.world.disk := by
  cases hb : s.backend with
  | «local» =>
    simp only [Pass.preparation, hb] at h
    obtain ⟨raw, y₁, hraw, h⟩ := bind_eq_ok h
    obtain ⟨-, rfl⟩ := pure_eq_ok h
    have hlines : ∀ k ∈ [Artifacts.sliceLinesFile], IsName k := by decide
    exact (Workspace.prepareOutput_elsewhere (P := linesAt l)
      (List.forall_mem_append.mpr ⟨hl, hlines⟩) (Workspace.path_eq hl rfl hlines hroot) hraw).mono
        fun _ => .inl
  | container =>
    obtain ⟨d₁, d₂, hgrows, hcopied, hcleared⟩ := preparation_container hs hl hn hroot h hb
    have hd₁ : d₁.Linkless := (Elsewhere.of_grows (U := fun _ => False) hgrows hd).1
    obtain ⟨k, hlink, halters, -⟩ := copy_ok hd₁ (names_mounted hs hb p hl hn) hcopied
    have hcopy : Elsewhere (Prepares s p l) d₁ d₂ := by
      refine (Elsewhere.of_alters halters hlink).mono ?_
      rintro P rfl
      exact .inr ⟨hb, n, rfl⟩
    refine ((Elsewhere.of_grows hgrows).trans hcopy).trans (hcleared.mono ?_)
    rintro P (rfl | rfl)
    · exact .inr ⟨hb, _, rfl⟩
    · exact .inl rfl

/-- What a container is to see is a copy of the input, unless a device stands there. -/
theorem preparation_mounts (hb : s.backend = .container) (hlines : n ≠ Artifacts.sliceLinesFile)
    {id : Nat} {content : ByteArray} {b : Bool}
    (hinput : y.world.disk.get? (l ++ [n]) = some (.file id content b)) :
    z.world.disk.Handy (l ++ [(p.recipe s).mountDir, n]) ∧
      (z.world.disk.get? (l ++ [(p.recipe s).mountDir, n]) = some .sink ∨ ∃ id x,
        z.world.disk.get? (l ++ [(p.recipe s).mountDir, n]) = some (.file id content x)) := by
  obtain ⟨d₁, d₂, hgrows, hcopied, hcleared⟩ := preparation_container hs hl hn hroot h hb
  have hnames := names_mounted hs hb p hl hn
  have hinputNames : ∀ k ∈ l ++ [n], IsName k :=
    List.forall_mem_append.mpr ⟨hl, by simpa using hn⟩
  have hd₁ : d₁.Linkless := (Elsewhere.of_grows (U := fun _ => False) hgrows hd).1
  obtain ⟨k, hlink, halters, hcontent⟩ := copy_ok hd₁ hnames hcopied
  have hmount := mountDir_ne_lines hs hb p
  have hcleared := hcleared (halters.linkless hd₁ hlink)
  have hapart : ∀ P, (P = l ++ [(p.recipe s).mountDir, Artifacts.sliceLinesFile] ∨ P = linesAt l) →
      ¬ P <+: l ++ [(p.recipe s).mountDir, n] := by
    rintro P (rfl | rfl) hprefix
    · have := (List.prefix_append_right_inj l).mp hprefix
      simp [hlines.symm] at this
    · have := (List.prefix_append_right_inj l).mp hprefix
      simp [hmount.symm] at this
  have hhandy := handy_of_copy hd₁ hnames hcopied
  have hhandy₂ : d₂.Handy (l ++ [(p.recipe s).mountDir, n]) :=
    hhandy.beside (fun _ => halters.other) fun _ => rfl
  refine ⟨⟨hhandy₂.check, hhandy₂.reached.of_holds fun P j hP hj =>
    hcleared.2 P j (fun hU => hapart P hU hP) hj⟩, ?_⟩
  have hkept := hcleared.2 _ k (fun hU => hapart _ hU (List.prefix_refl _)) halters.self
  rcases hcontent (l ++ [n]) hinputNames rfl (by simp) with rfl | ⟨id', b', x, rfl, hread⟩
  · exact .inl hkept
  · obtain ⟨-, -, ⟨id₁, x₁, hfile⟩ | ⟨hsink, -⟩⟩ :=
      (read_pathOf_iff (hd₁.clear _) hinputNames).mp hread
    · rw [hgrows.keeps hinput] at hfile
      cases hfile
      exact .inr ⟨id', x, hkept⟩
    · rw [hgrows.keeps hinput] at hsink
      cases hsink

end

/-! ## When the slicer is called -/

/-- The static slicer, or what sees the directory of a container, finds the program for a criterion in
its input, and is asked for the line of the criterion. Only a device in that directory does not keep
what was copied to it. -/
def Fed (s : Settings) (subject : Subject) (c : Criterion) (q : Query) (z : Site) : Prop :=
  ∃ source text, z.world.disk.readText subject.source = .ok source ∧
    z.world.disk.readText q.input = .ok text ∧ Rendering subject source c text q.criterion ∧
    ((∀ t, parseUnit subject.language source = .ok t → t.FitsIn source) → 1 ≤ c.line →
      c.line + 2 < lineLimit → SameLine source text c q.criterion) ∧
    (s.backend = .container → ∃ n, q.input.fileName = some n ∧
      let seen := z.workspace.path ((Pass.static.recipe s).mountDir ++ "/" ++ n)
      z.world.disk.readText seen = .ok text ∨ ∃ o, z.world.disk.stat seen = .ok (o, .sink))

section

variable {s : Settings} (hs : BuiltIn s) {subject : Subject} {l : Location}
  (hl : ∀ n ∈ l, IsName n) {m : Location} (hm : ∀ n ∈ m, IsName n)
  (hsource : subject.source = pathOf m)
  (htouch : ∀ k, Touches s subject.extension .staticSlice k → ¬ l ++ k <+: m) {x y z : Site}
  (hroot : x.workspace.root = pathOf l) (hd : x.world.disk.Linkless) {source : String}
  (htext : x.world.disk.readText subject.source = .ok source) {i : Nat} {c : Criterion} {q : Query}
  {places : Path × Path}
include hs hl hm hsource htouch hroot hd htext

theorem static_fed (host : Host) (hask : (Inquiry.static s subject).ask i c x = (.ok q, y))
    (hprepare : Pass.static.preparation s q.input y = (.ok places, z)) : Fed s subject c q z := by
  obtain ⟨⟨input, planting⟩, x₁, hinput, hquery⟩ := bind_eq_ok hask
  obtain ⟨rfl, rfl⟩ := pure_eq_ok hquery
  obtain ⟨rfl, hhandy, id, content, b, text, hnode, hutf8, hrendering⟩ :=
    staticInput_renders hl hm hsource htouch hroot hd htext hinput
  -- what was made is left when the places of the products are prepared, and so is the program
  have hidle := (staticInput_idles s subject i).rel x trivial
  have hidle' := (Pass.static.preparation_idles s
    (pathOf (l ++ [staticName subject i]))).rel x₁ trivial
  rw [hinput] at hidle
  rw [hprepare] at hidle'
  have hroot₁ : x₁.workspace.root = pathOf l := hidle.root.trans hroot
  have hroot₂ : z.workspace.root = pathOf l := hidle'.root.trans hroot₁
  obtain ⟨hd₁, hread⟩ := staticInput_spares hl hm htouch hroot host hinput hd
  obtain ⟨source', hsource', hutf8'⟩ := readText_eq_ok htext
  have htext₁ : x₁.world.disk.readText (pathOf m) = .ok source :=
    readText_of_read (hread source' (hsource ▸ hsource')) hutf8'
  have hname := isName_staticName subject i
  have hnames : ∀ k ∈ l ++ [staticName subject i], IsName k :=
    List.forall_mem_append.mpr ⟨hl, by simpa using hname⟩
  have hlines := staticName_ne_lines subject i
  have helse := preparation_elsewhere hs hl hname hroot₁ hd₁ hprepare
  refine ⟨source, text, ?_, ?_, hrendering c, (hrendering c).sameLine, fun hb => ?_⟩
  · rw [hsource]
    refine helse.readText hd₁ hm ?_ htext₁
    rintro P (rfl | ⟨hb, n, rfl⟩) hP
    · exact htouch _ (.kept .static) hP
    · exact htouch _ (.mounted .static hb (hm n (hP.subset (by simp)))) hP
  · refine helse.readText hd₁ hnames ?_ (readText_of_file hhandy hnode hutf8)
    rintro P (rfl | ⟨-, n, rfl⟩) hP
    · have hsame := (List.prefix_append_right_inj l).mp hP
      simp [hlines.symm] at hsame
    · have := hP.length_le
      simp at this
  · obtain ⟨hseen, hcopy⟩ := preparation_mounts hs hl hname hroot₁ hd₁ hprepare hb hlines hnode
    refine ⟨_, fileName_pathOf hnames, ?_⟩
    dsimp only
    rw [path_mounted hs hb .static hl hname hroot₂]
    rcases hcopy with hn | ⟨id', b', hn⟩
    · exact .inr ⟨_, hseen.stat hn nofun⟩
    · exact .inl (readText_of_file hseen hn hutf8)

end

end Pipeline

end Whittle
