import Whittle.Proofs.Recipe.Data

/-!
# One placeholder after the other

A recipe replaces its placeholders one kind after the other. For the first five that is the same as
filling all their holes at once, but the output is put in last: it also goes where the arguments of
the program have brought its placeholder into the command. So a command is the filled template if
and only if that happens nowhere (`render_eq_fill_iff`).
-/

namespace Whittle.Template

open Text Pipeline ContainerRecipe Criterion

variable {value : Placeholder → String} {ps : List Piece}

/-- The values of some placeholders; the others as they stand in a template. -/
def partly (value : Placeholder → String) (taken : List Placeholder) (p : Placeholder) :
    List Char :=
  if p ∈ taken then (value p).toList else mark p

theorem update_partly {P : Placeholder} {taken : List Placeholder} :
    Function.update (partly value taken) P (value P).toList = partly value (P :: taken) := by
  funext p
  by_cases hp : p = P
  · subst hp
    simp [partly]
  · rw [Function.update_of_ne hp]
    simp [partly, hp]

/-- Replacing one more placeholder fills its holes, where no data that is in place can be a part
of it. -/
theorem replaceFrom_partly (hps : Parsed ps) {P : Placeholder} {taken : List Placeholder}
    (hP : P ∉ taken) (hinert : ∀ p ∈ taken, Inert P (value p).toList) :
    replaceFrom (mark P) (value P).toList 0 (spell (partly value taken) ps) =
      spell (partly value (P :: taken)) ps := by
  have hself : partly value taken P = mark P := if_neg hP
  have hothers : ∀ p, .hole p ∈ ps → p ≠ P →
      partly value taken p = mark p ∨ Inert P (partly value taken p) := by
    intro p _ _
    unfold partly
    split
    · rename_i hp
      exact .inr (hinert p hp)
    · exact .inl rfl
  rw [replaceFrom_spell hself _ (occurrences_spell hps hothers hself), update_partly]

theorem toList_render_foldl (r : ContainerRecipe) (fileName : String) (c : Criterion)
    (arguments : String) : (r.render fileName c arguments).toList =
      Placeholder.all.foldl
        (fun cs p => replaceFrom (mark p) (valueOf fileName c arguments p).toList 0 cs)
        r.template.toList := by
  simp only [ContainerRecipe.render, Placeholder.all, List.foldl_cons, List.foldl_nil, replaceAll,
    String.toList_ofList]
  rfl

/-- The placeholders that are replaced before the output, the last one first. -/
def early : List Placeholder := [.arguments, .criterion, .criterionLine, .stem, .file]

/-- The template with a value for every placeholder but the output. -/
def fillEarly (value : Placeholder → String) (template : String) : String :=
  String.ofList (spell (partly value early) (pieces template))

section

variable (b : Bench) (i : Nat) {c : Criterion} (hname : isIdentifier c.name.toList = true)
  (arguments : String) (r : ContainerRecipe)
include hname

/-- Whatever the arguments are, it is only the output that is put in too often. -/
theorem toList_render : (r.render (b.inputName i) c arguments).toList =
    replaceFrom (mark .output) Artifacts.sliceLinesFile.toList 0
      (spell (partly (valueOf (b.inputName i) c arguments) early) (pieces r.template)) := by
  have hps := parsed_pieces r.template
  let value := valueOf (b.inputName i) c arguments
  have hinert {p : Placeholder} (hp : p ∈ [Placeholder.criterion, .criterionLine, .stem, .file])
      (q : Placeholder) : Inert q (value p).toList := by
    refine inert_valueOf b i hname arguments ?_ ?_ q
    · rintro rfl
      exact absurd hp (by decide)
    · rintro rfl
      exact absurd hp (by decide)
  -- the placeholders are filled in the order in which they are replaced
  have hstart : r.template.toList = spell (partly value []) (pieces r.template) := by
    rw [← spell_mark_pieces r.template]
    exact spell_congr fun p _ => rfl
  have hstep {P : Placeholder} {taken : List Placeholder} (hP : P ∉ taken)
      (htaken : taken ⊆ [.criterion, .criterionLine, .stem, .file]) :
      replaceFrom (mark P) (value P).toList 0 (spell (partly value taken) (pieces r.template)) =
        spell (partly value (P :: taken)) (pieces r.template) :=
    replaceFrom_partly hps hP fun p hp => hinert (htaken hp) P
  rw [toList_render_foldl, hstart]
  show Placeholder.all.foldl (fun cs p => replaceFrom (mark p) (value p).toList 0 cs) _ = _
  simp only [Placeholder.all, List.foldl_cons, List.foldl_nil]
  rw [hstep, hstep, hstep, hstep, hstep]
  · rfl
  all_goals decide

theorem render_eq_replaceAll : r.render (b.inputName i) c arguments =
    replaceAll Placeholder.output.text Artifacts.sliceLinesFile
      (fillEarly (valueOf (b.inputName i) c arguments) r.template) := by
  refine String.toList_inj.mp ?_
  rw [toList_render b i hname, replaceAll, fillEarly, String.toList_ofList, String.toList_ofList]
  rfl

/-- A command is the filled template unless it has the output's placeholder from elsewhere. -/
theorem render_eq_fill_iff : r.render (b.inputName i) c arguments =
      fill (valueOf (b.inputName i) c arguments) r.template ↔
    occurrences (mark .output)
        (fillEarly (valueOf (b.inputName i) c arguments) r.template).toList =
      occurrences (mark .output) r.template.toList := by
  have hself : partly (valueOf (b.inputName i) c arguments) early .output = mark .output := rfl
  have hlength : Artifacts.sliceLinesFile.toList.length ≠ (mark .output).length := by decide
  have hall : Function.update (partly (valueOf (b.inputName i) c arguments) early) .output
      Artifacts.sliceLinesFile.toList =
        fun p => (valueOf (b.inputName i) c arguments p).toList := by
    rw [← show (valueOf (b.inputName i) c arguments .output).toList =
      Artifacts.sliceLinesFile.toList from rfl, update_partly]
    funext p
    exact if_pos (by cases p <;> decide)
  rw [← String.toList_inj, toList_render b i hname, fill, fillEarly, String.toList_ofList,
    String.toList_ofList, occurrences_template, ← hall]
  exact replaceFrom_spell_iff hself hlength

end

/-- The command of a recipe for a file of a pass, a criterion that was read, on whatever line, and
any arguments: it is the template with its placeholders but the output filled at once, and then the
output put in wherever its placeholder stands. So it is the filled template exactly if the arguments
have not brought in one more of these; which they cannot if they have no brace and are not a part of
the placeholder themselves. -/
theorem render_fills (r : ContainerRecipe) (b : Bench) (i : Nat) {s : String} {w : World}
    {cs : List Criterion} (hread : (readAll s w).1 = .ok cs) {c : Criterion} (hc : c ∈ cs)
    (line : Nat) (arguments : String) :
    r.render (b.inputName i) (c.atLine line) arguments =
      replaceAll Placeholder.output.text Artifacts.sliceLinesFile
        (fillEarly (valueOf (b.inputName i) (c.atLine line) arguments) r.template) ∧
    (r.render (b.inputName i) (c.atLine line) arguments =
        fill (valueOf (b.inputName i) (c.atLine line) arguments) r.template ↔
      occurrences (mark .output)
          (fillEarly (valueOf (b.inputName i) (c.atLine line) arguments) r.template).toList =
        occurrences (mark .output) r.template.toList) ∧
    (Lacks '\x7b' arguments → Lacks '\x7d' arguments →
      ¬ arguments.toList <:+: mark .output →
      r.render (b.inputName i) (c.atLine line) arguments =
        fill (valueOf (b.inputName i) (c.atLine line) arguments) r.template) := by
  have hread := isIdentifier_of_mem_readAll hread hc
  have hname : isIdentifier (c.atLine line).name.toList = true := hread
  refine ⟨render_eq_replaceAll b i hname arguments r, render_eq_fill_iff b i hname arguments r,
    fun hopen hclose hpart => (render_eq_fill_iff b i hname arguments r).mpr ?_⟩
  rw [occurrences_template r.template, fillEarly, String.toList_ofList]
  refine occurrences_spell (parsed_pieces r.template) (fun p _ hp => .inr ?_) rfl
  have hearly : p ∈ early := by revert hp; cases p <;> decide
  rw [partly, if_pos hearly]
  by_cases hp' : p = .arguments
  · subst hp'
    exact inert_quoteArguments hopen hclose hpart
  · exact inert_valueOf b i hname arguments hp' hp .output

def sampleBench (pass : Pass) : Bench where
  settings := { sourceFile := ⟨"/a.c"⟩, line := 5 }
  pass := pass
  subject := ⟨⟨"/a.c"⟩, 5, .c, ""⟩
  root := ["w"]
  count := 1

def sampleWorld : World := .ofDisk ⟨[], [], 0, []⟩

theorem readAll_sampleWorld : (readAll "5:x\n" sampleWorld).1 = .ok [⟨5, "x"⟩] := rfl

theorem render_fills_sampleBench :
    (readAll "5:x\n" sampleWorld).1 = .ok [⟨5, "x"⟩] ∧
    (sampleBench .dynamic).inputName 0 = "dynamic_input.c" ∧
    dynamicDefault.render "dynamic_input.c" ⟨6, "x"⟩ "it's 100%" =
      fill (valueOf "dynamic_input.c" ⟨6, "x"⟩ "it's 100%") dynamicDefault.template := by
  have hfills := render_fills dynamicDefault (sampleBench .dynamic) 0 readAll_sampleWorld
    (List.mem_singleton_self _) 6 "it's 100%"
  have hopen : Lacks '\x7b' "it's 100%" := by decide
  have hclose : Lacks '\x7d' "it's 100%" := by decide
  have hpart : ¬ "it's 100%".toList <:+: mark .output := by decide
  exact ⟨readAll_sampleWorld, rfl, hfills.2.2 hopen hclose hpart⟩

/-- Arguments that name the output are no longer what the program is given. -/
theorem render_replaces_arguments :
    Criterion.read "5:x" = .ok ⟨5, "x"⟩ ∧
    dynamicDefault.render "dynamic_input.c" ⟨5, "x"⟩ "\x7boutput\x7d" ≠
      fill (valueOf "dynamic_input.c" ⟨5, "x"⟩ "\x7boutput\x7d") dynamicDefault.template := by
  refine ⟨by decide, fun h => ?_⟩
  have hlength := congrArg (fun command => command.toList.length) h
  simp only [toList_render_foldl, fill, pieces, dynamicDefault, String.toList_append,
    String.toList_ofList, Placeholder.text] at hlength
  revert hlength
  decide +kernel

end Whittle.Template
