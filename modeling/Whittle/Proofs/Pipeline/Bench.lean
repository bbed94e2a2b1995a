import Whittle.Proofs.Pipeline.Footprint
import Whittle.Proofs.Workspace.Placing

/-!
# The files of a pass

`Bench.Uses` lists the places at which a pass works before the slice extractor is called. On a disk
that is `Ready` every one of them can be cleared and written, and the pass leaves the disk ready.
-/

namespace Whittle.Pipeline

open Text Disk

/-- A pass over a program, in a directory, for so many criteria. -/
structure Bench where
  settings : Settings
  pass : Pass
  subject : Subject
  root : Location
  count : Nat

namespace Bench

variable (b : Bench)

def recipe : ContainerRecipe := b.pass.recipe b.settings

/-- The name of what the slicer reads for a criterion. -/
def inputName (i : Nat) : String :=
  match b.pass with
  | .static => "static_input_" ++ natText i ++ "." ++ b.subject.extension
  | .dynamic => "dynamic_input." ++ b.subject.extension

/-- The name of the slice of a criterion. -/
def sliceName (i : Nat) : String := b.pass.title ++ "_slice_" ++ natText i ++ ".txt"

/-- The names of the files of a pass. -/
inductive FileName : String → Prop
  | input {i : Nat} (hi : i < b.count) : FileName (b.inputName i)
  | lines : FileName Artifacts.sliceLinesFile
  | slice {i : Nat} (hi : i < b.count) : FileName (b.sliceName i)
  | union : FileName Artifacts.unionFile
  | extract : FileName (Artifacts.sliceStem ++ "." ++ b.subject.extension)
  | extractLine : FileName Artifacts.adjustedLineFile

/-- The names of its files in the directory that containers see. -/
inductive MountedName : String → Prop
  | input {i : Nat} (hi : i < b.count) : MountedName (b.inputName i)
  | lines : MountedName Artifacts.sliceLinesFile

/-- Where containers, if any are used, see a directory. -/
def mount : Location := b.root ++ [b.recipe.mountDir]

def Mount (P : Location) : Prop := b.settings.backend = .container ∧ P = b.mount

/-- The places at which a pass works before the slice extractor is called. -/
inductive Uses : Location → Prop
  | file {n : String} (h : b.FileName n) : Uses (b.root ++ [n])
  | mounted {n : String} (hb : b.settings.backend = .container) (h : b.MountedName n) :
    Uses (b.mount ++ [n])

/-- The paths of all places are short enough, and the directory that containers see has a name, and
not the name of a file. -/
structure Fits : Prop where
  check : ∀ P, b.Uses P ∨ b.Mount P → checkText (pathOf P).text = .ok ()
  size : ∀ P, b.Uses P ∨ b.Mount P → ∀ n ∈ P, n.utf8ByteSize ≤ nameLimit
  mounts : b.settings.backend = .container → IsName b.recipe.mountDir
  apart : b.settings.backend = .container → ¬ b.FileName b.recipe.mountDir

/-- No directory stands at the place of a file, and no link where containers are to see one. -/
structure Ready (d : Disk) : Prop where
  entered : d.Entered b.root
  free : ∀ P, b.Uses P → d.get? P ≠ some .dir
  mounted : b.settings.backend = .container → ∀ i < b.count, d.Free (b.mount ++ [b.inputName i])
  not_link : b.settings.backend = .container → ∀ target, d.get? b.mount ≠ some (.link target)

/-! ## Names -/

variable {b}

theorem isName_inputName (b : Bench) (i : Nat) : IsName (b.inputName i) := by
  have hext := lacks_extension b.subject
  unfold inputName
  cases b.pass with
  | static =>
    have hfront : IsFront "static_input_" := by decide
    have hdot : Lacks '/' "." := by decide
    exact (((hfront.append (lacks_natText (by decide) i)).append hdot).append hext).isName
  | dynamic =>
    have hfront : IsFront "dynamic_input." := by decide
    exact (hfront.append hext).isName

theorem FileName.isName {n : String} (h : b.FileName n) : IsName n := by
  cases h with
  | input => exact isName_inputName b _
  | slice =>
    have hfront : IsFront (b.pass.title ++ "_slice_") := by cases b.pass <;> decide
    exact isName_numbered hfront _ (by decide)
  | lines | union | extractLine => decide
  | extract => exact names_extract b.subject _ List.mem_cons_self

theorem MountedName.isName {n : String} (h : b.MountedName n) : IsName n := by
  cases h with
  | input => exact isName_inputName b _
  | lines => decide

theorem inputName_ne (b : Bench) (i : Nat) {n : String} (hs : Diverge "static_input_" n)
    (hd : Diverge "dynamic_input." n) (rest : String) : b.inputName i ≠ n ++ rest := by
  unfold inputName
  cases b.pass with
  | static =>
    simp only [String.append_assoc]
    exact hs.append_ne _ _
  | dynamic => exact hd.append_ne _ _

theorem inputName_ne_lines (b : Bench) (i : Nat) : b.inputName i ≠ Artifacts.sliceLinesFile := by
  simpa using b.inputName_ne i (n := Artifacts.sliceLinesFile) (by decide) (by decide) ""

theorem inputName_ne_sliceName (b : Bench) (i j : Nat) : b.inputName i ≠ b.sliceName j := by
  have hfront : ∀ p : Pass, Diverge "static_input_" (p.title ++ "_slice_") ∧
      Diverge "dynamic_input." (p.title ++ "_slice_") := by
    intro p
    cases p <;> decide
  have := b.inputName_ne i (hfront b.pass).1 (hfront b.pass).2 (natText j ++ ".txt")
  simpa only [sliceName, String.append_assoc] using this

theorem sliceName_ne (b : Bench) (i : Nat) {n : String} (hs : Diverge "static_slice_" n)
    (hd : Diverge "dynamic_slice_" n) : b.sliceName i ≠ n := by
  have hne : b.pass.title ++ "_slice_" ++ (natText i ++ ".txt") ≠ n ++ "" := by
    cases b.pass
    · exact hs.append_ne _ _
    · exact hd.append_ne _ _
  simpa only [sliceName, String.append_assoc, String.append_empty] using hne

theorem sliceName_injective (b : Bench) {i j : Nat} (h : b.sliceName i = b.sliceName j) : i = j := by
  unfold sliceName at h
  simp only [String.append_left_inj, String.append_right_inj] at h
  exact natText_injective h

section

variable {P Q : Location}

theorem Uses.not_root (h : b.Uses P) : ¬ P <+: b.root := by
  intro hP
  have hlen := hP.length_le
  cases h <;> simp only [mount, List.length_append, List.length_singleton] at hlen <;> omega

theorem Uses.not_mount (hfits : b.Fits) (hb : b.settings.backend = .container) (h : b.Uses P) :
    ¬ P <+: b.mount := by
  intro hP
  cases h with
  | file h =>
    have hname := (List.prefix_append_right_inj b.root).mp hP
    obtain ⟨rfl, -⟩ := List.cons_prefix_cons.mp hname
    exact hfits.apart hb h
  | mounted =>
    have hlen := hP.length_le
    simp only [List.length_append, List.length_singleton] at hlen
    omega

/-- No place lies below another. -/
theorem Uses.apart (hfits : b.Fits) (hP : b.Uses P) (hQ : b.Uses Q) (h : P <+: Q) : P = Q := by
  cases hQ with
  | file hn =>
    refine h.eq_of_length_le ?_
    cases hP <;> simp [mount]
  | mounted hb hn =>
    rcases List.prefix_concat_iff.mp h with e | h
    · exact e
    · exact absurd h (hP.not_mount hfits hb)

end

/-! ## Readiness -/

theorem mount_ne_nil (b : Bench) : b.mount ≠ [] := by simp [mount]

section

variable (hfits : b.Fits) {d : Disk} (hready : b.Ready d)
include hfits hready

theorem Ready.file {n : String} (hn : b.FileName n) : d.Handy (b.root ++ [n]) :=
  hready.entered.handy hn.isName (hfits.size _ (.inl (.file hn)) n (by simp))
    (hfits.check _ (.inl (.file hn)))

variable {w : Workspace} (hroot : w.root = pathOf b.root)

omit hfits in
include hroot in
theorem Ready.path {n : String} (hn : b.FileName n) : w.path n = pathOf (b.root ++ [n]) := by
  have hname : n = String.intercalate "/" [n] := rfl
  exact Workspace.path_eq hready.entered.reached.isName hname (by simpa using hn.isName) hroot

variable (hb : b.settings.backend = .container)
include hb

include hroot in
theorem Ready.path_mount : w.path b.recipe.mountDir = pathOf b.mount := by
  have hname : b.recipe.mountDir = String.intercalate "/" [b.recipe.mountDir] := rfl
  exact Workspace.path_eq hready.entered.reached.isName hname (by simpa using hfits.mounts hb) hroot

include hroot in
theorem Ready.path_mounted {n : String} (hn : b.MountedName n) :
    w.path (b.recipe.mountDir ++ "/" ++ n) = pathOf (b.mount ++ [n]) := by
  have hname : b.recipe.mountDir ++ "/" ++ n = String.intercalate "/" [b.recipe.mountDir, n] := rfl
  rw [Workspace.path_eq hready.entered.reached.isName hname
    (by simpa using ⟨hfits.mounts hb, hn.isName⟩) hroot, Bench.mount, List.append_assoc]
  rfl

theorem Ready.mount : d.Handy b.mount :=
  hready.entered.handy (hfits.mounts hb) (hfits.size _ (.inr ⟨hb, rfl⟩) _ (by simp [Bench.mount]))
    (hfits.check _ (.inr ⟨hb, rfl⟩))

theorem Ready.inMount (hdir : d.get? b.mount = some .dir) {n : String} (hn : b.MountedName n) :
    d.Handy (b.mount ++ [n]) := by
  have hentered : d.Entered b.mount := ⟨(hready.mount hfits hb).reached, hdir⟩
  exact hentered.handy hn.isName (hfits.size _ (.inl (.mounted hb hn)) n (by simp))
    (hfits.check _ (.inl (.mounted hb hn)))

end

/-- Work at the places of a pass. -/
abbrev Edits (b : Bench) (T : Location → Prop) (d d' : Disk) : Prop :=
  Disk.Edits b.Uses b.Mount T d d'

theorem Ready.edits (hfits : b.Fits) {T : Location → Prop} (hT : ∀ P, T P → b.Uses P) {d d' : Disk}
    (hready : b.Ready d) (h : b.Edits T d d') : b.Ready d' where
  entered := hready.entered.edits h fun P hP => (hT P hP).not_root
  free P hP := h.not_dir hP (hready.free P hP)
  mounted hb i hi := h.stays_free (.mounted hb (.input hi)) (hready.mounted hb i hi)
  not_link hb target := by
    rcases h.keep b.mount fun P hP => (hT P hP).not_mount hfits hb with e | ⟨-, -, e⟩
    · rw [e]
      exact hready.not_link hb target
    · rw [e]
      exact nofun

end Bench

end Whittle.Pipeline
