import Whittle.Proofs.Recipe.Quoting
import Whittle.Proofs.Recipe.Rendering

/-!
# The commands of the slicers

Both recipes put what they are given into words: whatever the arguments are, the command has the
tokens of the template, with the data in the words that have holes (`render_tokens`).
-/

namespace Whittle.Template

open Text Pipeline ContainerRecipe Criterion

/-! ## The output in the arguments -/

/-- It is the same to replace a pattern before quotes are written and after it. -/
theorem replaceFrom_quoted {pattern replacement : List Char} (hne : pattern ≠ [])
    (hquote : '\'' ∉ pattern) (hescape : '\\' ∉ pattern) (hr : '\'' ∉ replacement)
    (v : List Char) : replaceFrom pattern replacement 0 (quoted v) =
      quoted (replaceFrom pattern replacement 0 v) := by
  induction hn : v.length using Nat.strongRecOn generalizing v with
  | _ n ih =>
    by_cases hv : '\'' ∈ v
    · obtain ⟨front, rest, rfl, hfront⟩ := List.eq_append_cons_of_mem hv
      have hshorter : rest.length < n := by
        rw [← hn, List.length_append, List.length_cons]
        omega
      have hstay {d : Char} (hd : d ∉ pattern) (ys : List Char) :
          replaceFrom pattern replacement 0 (d :: ys) =
            d :: replaceFrom pattern replacement 0 ys := replaceFrom_fence hd hne [] ys
      have hkept : '\'' ∉ replaceFrom pattern replacement 0 front := not_mem_replaceFrom hr hfront
      rw [quoted_append, quoted_cons_quote, quoted_of_not_mem hfront, replaceFrom_fence hquote hne,
        hstay hescape, hstay hquote, hstay hquote, ih _ hshorter rest rfl,
        replaceFrom_fence hquote hne, quoted_append, quoted_cons_quote, quoted_of_not_mem hkept]
    · rw [quoted_of_not_mem hv, quoted_of_not_mem (not_mem_replaceFrom hr hv)]

/-- The data of a command. The output is also put in where the arguments have its placeholder. -/
def dataOf (fileName : String) (c : Criterion) (arguments : String) : Placeholder → String
  | .arguments => replaceAll Placeholder.output.text Artifacts.sliceLinesFile arguments
  | p => valueOf fileName c arguments p

section

variable (b : Bench) (i : Nat) {c : Criterion} (hname : isIdentifier c.name.toList = true)
  (arguments : String)
include hname

theorem plain_dataOf {p : Placeholder} (hp : p ≠ .arguments) :
    Plain (dataOf (b.inputName i) c arguments p).toList := by
  have h := plain_valueOf b i hname arguments hp
  cases p with
  | arguments => exact absurd rfl hp
  | _ => exact h

theorem quoted_dataOf {p : Placeholder} (hp : p ≠ .arguments) :
    quoted (dataOf (b.inputName i) c arguments p).toList =
      (valueOf (b.inputName i) c arguments p).toList := by
  rw [(plain_dataOf b i hname arguments hp).harmless.quoted_eq]
  cases p with
  | arguments => exact absurd rfl hp
  | _ => rfl

/-- Without arguments the output goes to its own holes only. -/
theorem replaceFrom_early {ps : List Piece} (hps : Parsed ps) (hlacks : .hole .arguments ∉ ps) :
    replaceFrom (mark .output) Artifacts.sliceLinesFile.toList 0
        (spell (partly (valueOf (b.inputName i) c arguments) early) ps) =
      spell (fun p => quoted (dataOf (b.inputName i) c arguments p).toList) ps := by
  have hself : partly (valueOf (b.inputName i) c arguments) early .output = mark .output := rfl
  have hne {p : Placeholder} (hp : .hole p ∈ ps) : p ≠ .arguments := fun e => hlacks (e ▸ hp)
  have hearly {p : Placeholder} (hp : p ≠ .output) : p ∈ early := by
    revert hp
    cases p <;> decide
  rw [replaceFrom_spell hself _ (occurrences_spell hps (fun p hp ho => .inr ?_) hself)]
  · refine spell_congr fun p hp => ?_
    rw [quoted_dataOf b i hname arguments (hne hp)]
    by_cases ho : p = .output
    · rw [ho, Function.update_self]
      rfl
    · rw [Function.update_of_ne ho, partly, if_pos (hearly ho)]
  · rw [partly, if_pos (hearly ho)]
    exact inert_valueOf b i hname arguments (hne hp) ho .output

/-- A template with one hole for arguments, between characters that keep the arguments apart from
what stands beside them. -/
theorem toList_render_of_fence {r : ContainerRecipe} {left right : List Piece} {d e : Char}
    (hpieces : pieces r.template = left ++ .char d :: .hole .arguments :: .char e :: right)
    (hleft : .hole .arguments ∉ left) (hright : .hole .arguments ∉ right)
    (hd : d ∉ mark .output) (he : e ∉ mark .output) :
    (r.render (b.inputName i) c arguments).toList =
      spell (fun p => quoted (dataOf (b.inputName i) c arguments p).toList)
        (pieces r.template) := by
  have hparsed := parsed_pieces r.template
  rw [hpieces] at hparsed
  obtain ⟨hparsedLeft, hparsedRest⟩ := hparsed.of_append
  have hbefore := replaceFrom_early b i hname arguments hparsedLeft hleft
  have hbehind := replaceFrom_early b i hname arguments hparsedRest.tail.tail.tail hright
  have hne : mark .output ≠ [] := mark_ne_nil .output
  have harguments : replaceFrom (mark .output) Artifacts.sliceLinesFile.toList 0
      (partly (valueOf (b.inputName i) c arguments) early .arguments) =
        quoted (dataOf (b.inputName i) c arguments .arguments).toList := by
    have hvalue : partly (valueOf (b.inputName i) c arguments) early .arguments =
        quoted arguments.toList := toList_quoteArguments arguments
    rw [hvalue, replaceFrom_quoted hne (by decide) (by decide) (by decide), dataOf, replaceAll,
      String.toList_ofList]
    rfl
  rw [toList_render b i hname, hpieces, spell_append, spell_append, spell_char, spell_char,
    spell_hole, spell_hole, spell_char, spell_char, replaceFrom_fence hd hne,
    replaceFrom_fence he hne, hbefore, hbehind, harguments]

end

/-! ## The two templates -/

theorem arguments_not_mem_static : .hole .arguments ∉ pieces staticDefault.template := by
  simp only [pieces, staticDefault, String.toList_append, Placeholder.text]
  decide +kernel

/-- The arguments of the dynamic slicer stand behind a blank and before a quote. -/
theorem pieces_dynamic : ∃ left right, pieces dynamicDefault.template =
      left ++ .char ' ' :: .hole .arguments :: .char '\'' :: right ∧
    .hole .arguments ∉ left ∧ .hole .arguments ∉ right := by
  let other (piece : Piece) : Bool := piece ≠ .hole .arguments
  refine ⟨((pieces dynamicDefault.template).takeWhile other).dropLast,
    ((pieces dynamicDefault.template).dropWhile other).drop 2, ?_⟩
  simp only [pieces, dynamicDefault, testDir, String.toList_append, Placeholder.text]
  decide +kernel

/-- Arguments can only be put between quotes. -/
def Token.QuotesArguments (t : Token) : Prop :=
  ∀ l ∈ t.letters, l.piece = .hole .arguments → l.quoted = true

instance (t : Token) : Decidable t.QuotesArguments :=
  inferInstanceAs (Decidable (∀ l ∈ t.letters, l.piece = .hole .arguments → l.quoted = true))

/-- Both templates can be read, with the arguments in quotes. -/
theorem tokensOf_default {r : ContainerRecipe} (hr : r = staticDefault ∨ r = dynamicDefault) :
    ∃ ts, tokensOf (pieces r.template) = some ts ∧ ∀ t ∈ ts, t.QuotesArguments := by
  have h : (tokensOf (pieces r.template)).any (fun ts => ∀ t ∈ ts, t.QuotesArguments) = true := by
    rcases hr with rfl | rfl
    · simp only [pieces, staticDefault, String.toList_append, Placeholder.text]
      decide +kernel
    · simp only [pieces, dynamicDefault, testDir, String.toList_append, Placeholder.text]
      decide +kernel
  obtain ⟨ts, hts, hquoted⟩ := (Option.any_eq_true _ _).mp h
  exact ⟨ts, hts, of_decide_eq_true hquoted⟩

theorem tokens_fill {template : String} {words : Placeholder → String}
    (h : ∀ p, Harmless (words p).toList) {ts : List Token}
    (hts : tokensOf (pieces template) = some ts) :
    tokens (fill words template) = some (ts.map (Token.fill fun p => (words p).toList)) := by
  have hspell : spell (fun p => (words p).toList) (pieces template) =
      spell (fun p => quoted (words p).toList) (pieces template) :=
    spell_congr fun p _ => (h p).quoted_eq.symm
  rw [tokens, fill, String.toList_ofList, hspell]
  exact tokensOf_spell (fun p _ => h p) hts

section

variable (b : Bench) (i : Nat) {c : Criterion} (hname : isIdentifier c.name.toList = true)
  (arguments : String)
include hname

theorem toList_render_default {r : ContainerRecipe} (hr : r = staticDefault ∨ r = dynamicDefault) :
    (r.render (b.inputName i) c arguments).toList =
      spell (fun p => quoted (dataOf (b.inputName i) c arguments p).toList)
        (pieces r.template) := by
  rcases hr with rfl | rfl
  · rw [toList_render b i hname]
    exact replaceFrom_early b i hname arguments (parsed_pieces _) arguments_not_mem_static
  · obtain ⟨left, right, hpieces, hleft, hright⟩ := pieces_dynamic
    exact toList_render_of_fence b i hname arguments hpieces hleft hright (by decide) (by decide)

theorem tokens_render {r : ContainerRecipe} (hr : r = staticDefault ∨ r = dynamicDefault)
    {ts : List Token} (hts : tokensOf (pieces r.template) = some ts) :
    tokens (r.render (b.inputName i) c arguments) =
      some (ts.map (Token.fill fun p => (dataOf (b.inputName i) c arguments p).toList)) := by
  rw [tokens, toList_render_default b i hname arguments hr]
  exact tokensOf_spell (fun p hp => (plain_dataOf b i hname arguments hp).harmless) hts

end

/-- The command of either recipe for a file of a pass, a criterion that was read, on whatever line,
and any arguments has the tokens of the template, with the data as letters of its words. All data
but the arguments is plain, and the arguments are quoted. So the operators are those of the template
filled with any harmless words, and there are as many words between them. -/
theorem render_tokens {r : ContainerRecipe} (hr : r = staticDefault ∨ r = dynamicDefault)
    (b : Bench) (i : Nat) {s : String} {w : World} {cs : List Criterion}
    (hread : (readAll s w).1 = .ok cs) {c : Criterion} (hc : c ∈ cs) (line : Nat)
    (arguments : String) :
    ∃ ts us, tokensOf (pieces r.template) = some ts ∧ (∀ t ∈ ts, t.QuotesArguments) ∧
      tokens (r.render (b.inputName i) (c.atLine line) arguments) = some us ∧
      us = ts.map (Token.fill fun p =>
        (dataOf (b.inputName i) (c.atLine line) arguments p).toList) ∧
      (∀ p, p ≠ .arguments →
        Plain (dataOf (b.inputName i) (c.atLine line) arguments p).toList) ∧
      ∀ words : Placeholder → String, (∀ p, Harmless (words p).toList) →
        ∃ vs, tokens (fill words r.template) = some vs ∧
          us.map Token.kind = vs.map Token.kind := by
  have hread := isIdentifier_of_mem_readAll hread hc
  have hname : isIdentifier (c.atLine line).name.toList = true := hread
  obtain ⟨ts, hts, hquoted⟩ := tokensOf_default hr
  refine ⟨ts, _, hts, hquoted, tokens_render b i hname arguments hr hts, rfl,
    fun p hp => plain_dataOf b i hname arguments hp,
    fun words hwords => ⟨_, tokens_fill hwords hts, ?_⟩⟩
  rw [kinds_fill, kinds_fill]

/-- Quotes, a line feed and an expansion in the arguments are letters of one word. -/
theorem render_tokens_sampleBench :
    (readAll "5:x\n" sampleWorld).1 = .ok [⟨5, "x"⟩] ∧
    (∀ p : Placeholder, Harmless p.name.toList) ∧
    ∃ us vs, tokens (dynamicDefault.render "dynamic_input.c" ⟨6, "x"⟩ "'; $(x) >\n") = some us ∧
      tokens (fill Placeholder.name dynamicDefault.template) = some vs ∧
      us.map Token.kind = vs.map Token.kind := by
  have hname : ∀ p : Placeholder, Harmless p.name.toList := by
    intro p
    cases p <;> exact harmless_of_any (by decide) (by decide)
  obtain ⟨-, us, -, -, hus, -, -, hwords⟩ := render_tokens (.inr rfl) (sampleBench .dynamic) 0
    readAll_sampleWorld (List.mem_singleton_self _) 6 "'; $(x) >\n"
  obtain ⟨vs, hvs, hkinds⟩ := hwords Placeholder.name hname
  exact ⟨readAll_sampleWorld, hname, us, vs, hus, hvs, hkinds⟩

end Whittle.Template
