import Whittle.Proofs.Pipeline.Footprint
import Whittle.Proofs.Workspace.Account

/-!
# Names of products

Every stage that adopts a program gives it a name that no other stage uses. Names are told apart by
how they begin, so neither the extension of the program nor the number of a file matters.
-/

namespace Whittle.Pipeline

open Text Disk

/-- What the name of the product that a stage adopts begins with. -/
def productFront : Stage → Option String
  | .staticSlice => some "static_sliced."
  | .dynamicSlice => some "dynamic_sliced."
  | .graphReduce => some "graph_reduced."
  | .statementReduce => some "statement_reduced."
  | _ => none

/-- What the names that a stage uses in the work directory begin with. -/
def touchedFronts : Stage → List String
  | .extractCriteria => ["criteria.txt"]
  | .staticSlice =>
    ["static_input_", "slice_lines.txt", "dg-data", "static_slice_", "unification.txt", "slice.",
     "adjustedLineNumber.txt", "static_sliced."]
  | .dynamicSlice =>
    ["dynamic_input.", "slice_lines.txt", "giri-data", "dynamic_slice_", "unification.txt",
     "slice.", "adjustedLineNumber.txt", "dynamic_sliced."]
  | .graphReduce => ["temp", "adjustedLineNumber.txt", "graph_reduced."]
  | .statementReduce => ["temp", "adjustedLineNumber.txt", "statement_reduced."]
  | _ => []

/-- If containers are used, they are the built-in ones. -/
def BuiltIn (s : Settings) : Prop :=
  s.backend = .container →
    s.tools.staticContainer = .staticDefault ∧ s.tools.dynamicContainer = .dynamicDefault

theorem BuiltIn.mounts {s : Settings} (h : BuiltIn s) : Mounts s := by
  intro hb p
  obtain ⟨hs, hd⟩ := h hb
  cases p with
  | static => rw [Pass.recipe, hs]; decide
  | dynamic => rw [Pass.recipe, hd]; decide

theorem diverge_touchedFronts {stage other : Stage} (hne : stage ≠ other) {f g : String}
    (hf : f ∈ touchedFronts stage) (hg : productFront other = some g) : Diverge f g := by
  have hall : ∀ a b : Stage, a ≠ b → ∀ f ∈ touchedFronts a, ∀ g ∈ productFront b, Diverge f g := by
    intro a b
    cases a <;> cases b <;> decide
  exact hall stage other hne f hf g hg

/-- The first name of a place that a stage touches begins with one of its fronts. -/
theorem Touches.front {s : Settings} (hs : BuiltIn s) {ext : String} {stage : Stage} {m : Location}
    (h : Touches s ext stage m) :
    ∃ f ∈ touchedFronts stage, ∃ more rest, m = (f ++ more) :: rest := by
  have hmount (p : Pass) (hb : s.backend = .container) :
      (p.recipe s).mountDir ∈ touchedFronts p.stage := by
    obtain ⟨hstatic, hdynamic⟩ := hs hb
    cases p with
    | static => rw [Pass.recipe, hstatic]; decide
    | dynamic => rw [Pass.recipe, hdynamic]; decide
  have hwhole {name : String} (rest : Location) (hf : name ∈ touchedFronts stage) :
      ∃ f ∈ touchedFronts stage, ∃ more tail, name :: rest = (f ++ more) :: tail :=
    ⟨name, hf, "", rest, by rw [String.append_empty]⟩
  cases h with
  | criteria => exact hwhole [] (by decide)
  | input i =>
    exact ⟨"static_input_", by decide, natText i ++ "." ++ ext, [], by
      rw [String.append_assoc, String.append_assoc, String.append_assoc]⟩
  | guarded => exact ⟨"dynamic_input.", by decide, ext, [], rfl⟩
  | kept p => exact hwhole [] (by cases p <;> decide)
  | mount p hb => exact hwhole [] (hmount p hb)
  | mounted p hb => exact hwhole _ (hmount p hb)
  | slice p i =>
    exact ⟨p.title ++ "_slice_", by cases p <;> decide, natText i ++ ".txt", [], by
      rw [String.append_assoc]⟩
  | union p => exact hwhole [] (by cases p <;> decide)
  | extract p => exact ⟨"slice.", by cases p <;> decide, ext, [], rfl⟩
  | extractLine p => exact hwhole [] (by cases p <;> decide)
  | sliced p => exact ⟨p.title ++ "_sliced.", by cases p <;> decide, ext, [], rfl⟩
  | reducedDir r => exact hwhole [] (by cases r <;> decide)
  | reduction r => exact hwhole _ (by cases r <;> decide)
  | reductionLine r => exact hwhole [] (by cases r <;> decide)
  | reduced r => exact ⟨r.title ++ "_reduced.", by cases r <;> decide, ext, [], rfl⟩

/-- No stage touches the product of another one, nor a place above it. -/
theorem Touches.not_prefix {s : Settings} (hs : BuiltIn s) {ext g : String} {stage other : Stage}
    {m : Location} (h : Touches s ext stage m) (hne : stage ≠ other)
    (hg : productFront other = some g) : ¬ m <+: [g ++ ext] := by
  obtain ⟨f, hf, more, rest, rfl⟩ := h.front hs
  intro hprefix
  exact (diverge_touchedFronts hne hf hg).append_ne more ext (List.cons_prefix_cons.mp hprefix).1

/-- No stage touches the lock file. -/
theorem Touches.not_lock {s : Settings} (hs : BuiltIn s) {ext : String} {stage : Stage}
    {m : Location} (h : Touches s ext stage m) : ¬ m <+: [Artifacts.lockFile] := by
  obtain ⟨f, hf, more, rest, rfl⟩ := h.front hs
  intro hprefix
  have hall : ∀ stage : Stage, ∀ f ∈ touchedFronts stage, Diverge f Artifacts.lockFile := by
    intro stage
    cases stage <;> decide
  have hname := (hall stage f hf).append_ne more ""
  rw [String.append_empty] at hname
  exact hname (List.cons_prefix_cons.mp hprefix).1

/-- The directories that stages make. -/
theorem DirAt.name {s : Settings} (hs : BuiltIn s) {stage : Stage} {m : Location}
    (h : DirAt s stage m) : ∃ name ∈ ["temp", "dg-data", "giri-data"], m = [name] := by
  cases h with
  | mount p hb =>
    obtain ⟨hstatic, hdynamic⟩ := hs hb
    cases p with
    | static => exact ⟨_, by rw [Pass.recipe, hstatic]; decide, rfl⟩
    | dynamic => exact ⟨_, by rw [Pass.recipe, hdynamic]; decide, rfl⟩
  | reduced r => exact ⟨_, by decide, rfl⟩

theorem charter_in {s : Settings} (hs : BuiltIn s) (ext : String) (root : Location)
    (on : Stage → Prop) : (charter s ext root on).In root where
  product k hk := by
    obtain ⟨stage, m, -, hm, rfl⟩ := hk
    obtain ⟨f, -, more, rest, rfl⟩ := hm.touches.front hs
    exact ⟨List.prefix_append _ _, by simp⟩
  directory k hk := by
    obtain ⟨stage, m, -, hm, rfl⟩ := hk
    obtain ⟨name, hname, rfl⟩ := hm.name hs
    refine ⟨name, rfl, ?_⟩
    have hall : ∀ name ∈ ["temp", "dg-data", "giri-data"], name.utf8ByteSize ≤ nameLimit := by
      decide
    exact hall name hname

end Whittle.Pipeline
