import Whittle.Proofs.Criterion
import Whittle.Proofs.Pipeline.Bench
import Whittle.Proofs.Recipe.Filling

/-!
# The data of a command

What a pass puts into a template, but for the arguments of the program, is `Plain`: the name of the
file that the slicer reads, the stem of that name, a line number, and a criterion that was read.
None of it can be a part of a placeholder (`inert_valueOf`).
-/

namespace Whittle.Template

open Text Pipeline ContainerRecipe Criterion

/-- ASCII letters, digits, underscores, dots and colons. -/
def isPlain (c : Char) : Bool := continuesIdentifier c || c = '.' || c = ':'

structure Plain (v : List Char) : Prop where
  ne_nil : v ≠ []
  chars : ∀ c ∈ v, isPlain c = true

theorem plain_of_all {v : List Char} (hne : v ≠ []) (h : v.all isPlain = true) : Plain v :=
  ⟨hne, List.all_eq_true.mp h⟩

theorem Plain.not_mem {v : List Char} (h : Plain v) {c : Char} (hc : isPlain c = false) :
    c ∉ v := by
  intro hm
  rw [h.chars c hm] at hc
  cases hc

theorem Plain.append {v v' : List Char} (h : Plain v) (h' : ∀ c ∈ v', isPlain c = true) :
    Plain (v ++ v') where
  ne_nil := List.append_ne_nil_of_left_ne_nil h.ne_nil v'
  chars c hc := (List.mem_append.mp hc).elim (h.chars c) (h' c)

theorem Plain.inert {v : List Char} (h : Plain v) {p : Placeholder} {c : Char} (hc : c ∈ v)
    (hp : c ∉ mark p) : Inert p v :=
  inert_of_mem (h.not_mem (by decide)) (h.not_mem (by decide)) hc hp

/-! ## Numbers and criteria -/

theorem isPlain_of_continues {c : Char} (h : continuesIdentifier c = true) : isPlain c = true := by
  simp [isPlain, h]

theorem isPlain_of_isDigit {c : Char} (h : isDigit c = true) : isPlain c = true :=
  isPlain_of_continues (by simp [continuesIdentifier, h])

theorem isDigit_of_mem_natText {n : Nat} {d : Char} (h : d ∈ (natText n).toList) :
    isDigit d = true := by
  rw [natText, String.toList_ofList] at h
  exact List.all_eq_true.mp (all_isDigit_writeNat n) d h

theorem plain_natText (n : Nat) : Plain (natText n).toList where
  ne_nil := by
    rw [natText, String.toList_ofList]
    exact writeNat_ne_nil n
  chars _ hd := isPlain_of_isDigit (isDigit_of_mem_natText hd)

theorem inert_natText (n : Nat) (p : Placeholder) : Inert p (natText n).toList := by
  have hmark : (mark p).any isDigit = false := by cases p <;> decide
  obtain ⟨d, hd⟩ := List.exists_mem_of_ne_nil _ (plain_natText n).ne_nil
  refine (plain_natText n).inert hd fun hm => ?_
  exact List.any_eq_false.mp hmark d hm (isDigit_of_mem_natText hd)

section

variable {c : Criterion} (hname : isIdentifier c.name.toList = true)
include hname

theorem plain_text : Plain c.text.toList := by
  rw [Criterion.text, String.toList_append, String.toList_append, List.append_assoc]
  refine (plain_natText c.line).append fun d hd => ?_
  rcases List.mem_append.mp hd with hd | hd
  · rw [List.mem_singleton.mp hd]
    decide
  · refine isPlain_of_continues ?_
    by_contra hcontinues
    exact lacks_of_isIdentifier (by simpa using hcontinues) hname hd

theorem inert_text (p : Placeholder) : Inert p c.text.toList := by
  have hcolon : ':' ∈ c.text.toList := by simp [Criterion.text, String.toList_append]
  exact (plain_text hname).inert hcolon (by cases p <;> decide)

end

/-! ## Names of files -/

/-- The part of the name before the dot has letters that no placeholder has together. -/
theorem inputName_eq (b : Bench) (i : Nat) : ∃ front, Plain front.toList ∧ '.' ∉ front.toList ∧
    'p' ∈ front.toList ∧ 'i' ∈ front.toList ∧
    b.inputName i = front ++ ("." ++ b.subject.extension) := by
  unfold Bench.inputName
  split
  · have hfront : Plain "static_input_".toList := plain_of_all (by decide) (by decide)
    refine ⟨"static_input_" ++ natText i, ?_, ?_, ?_, ?_, String.append_assoc⟩
    · rw [String.toList_append]
      exact hfront.append (plain_natText i).chars
    · exact (show Lacks '.' "static_input_" by decide).append (lacks_natText (by decide) i)
    · rw [String.toList_append]
      exact List.mem_append_left _ (by decide)
    · rw [String.toList_append]
      exact List.mem_append_left _ (by decide)
  · have hfront : Plain "dynamic_input".toList := plain_of_all (by decide) (by decide)
    refine ⟨"dynamic_input", hfront, by decide, by decide, by decide, ?_⟩
    rw [← String.append_assoc]
    rfl

theorem plain_inputName (b : Bench) (i : Nat) : Plain (b.inputName i).toList := by
  obtain ⟨front, hfront, -, -, -, hname⟩ := inputName_eq b i
  rw [hname, String.toList_append]
  have hextension : ("." ++ b.subject.extension).toList.all isPlain = true := by
    unfold Subject.extension
    cases b.subject.language <;> decide
  exact hfront.append (List.all_eq_true.mp hextension)

theorem inert_inputName (b : Bench) (i : Nat) (p : Placeholder) :
    Inert p (b.inputName i).toList := by
  obtain ⟨front, -, -, -, -, hname⟩ := inputName_eq b i
  have hdot : '.' ∈ (b.inputName i).toList := by simp [hname, String.toList_append]
  exact (plain_inputName b i).inert hdot (by cases p <;> decide)

theorem firstStem_inputName (b : Bench) (i : Nat) : Plain (firstStem (b.inputName i)).toList ∧
    'p' ∈ (firstStem (b.inputName i)).toList ∧ 'i' ∈ (firstStem (b.inputName i)).toList := by
  obtain ⟨front, hfront, hdot, hp, hi, hname⟩ := inputName_eq b i
  have hstem : (firstStem (b.inputName i)).toList = front.toList := by
    have hbefore : ∀ c ∈ front.toList, decide (c ≠ '.') = true := by
      intro c hc
      exact decide_eq_true fun e => hdot (e ▸ hc)
    rw [firstStem, String.toList_ofList, hname, String.toList_append, String.toList_append,
      List.takeWhile_append_of_pos hbefore]
    simp
  rw [hstem]
  exact ⟨hfront, hp, hi⟩

theorem inert_firstStem (b : Bench) (i : Nat) (p : Placeholder) :
    Inert p (firstStem (b.inputName i)).toList := by
  obtain ⟨hplain, hp, hi⟩ := firstStem_inputName b i
  cases p with
  | output => exact hplain.inert hi (by decide)
  | _ => exact hplain.inert hp (by decide)

/-! ## All data but the arguments -/

section

variable (b : Bench) (i : Nat) {c : Criterion} (hname : isIdentifier c.name.toList = true)
  (arguments : String) {p : Placeholder} (hp : p ≠ .arguments)
include hname hp

theorem plain_valueOf : Plain (valueOf (b.inputName i) c arguments p).toList := by
  cases p with
  | file => exact plain_inputName b i
  | stem => exact (firstStem_inputName b i).1
  | criterionLine => exact plain_natText c.line
  | criterion => exact plain_text hname
  | arguments => exact absurd rfl hp
  | output => exact plain_of_all (v := Artifacts.sliceLinesFile.toList) (by decide) (by decide)

theorem inert_valueOf (ho : p ≠ .output) (q : Placeholder) :
    Inert q (valueOf (b.inputName i) c arguments p).toList := by
  cases p with
  | file => exact inert_inputName b i q
  | stem => exact inert_firstStem b i q
  | criterionLine => exact inert_natText c.line q
  | criterion => exact inert_text hname q
  | arguments => exact absurd rfl hp
  | output => exact absurd rfl ho

end

/-! ## Arguments -/

/-- What stands between single quotes for some data: each quote of its own closes them, follows
behind a backslash, and opens them again. -/
def quoted (v : List Char) : List Char :=
  v.flatMap fun c => if c = '\'' then ['\'', '\\', '\'', '\''] else [c]

@[simp] theorem quoted_nil : quoted [] = [] := rfl

theorem quoted_append (v v' : List Char) : quoted (v ++ v') = quoted v ++ quoted v' :=
  List.flatMap_append

theorem quoted_cons_quote (v : List Char) :
    quoted ('\'' :: v) = '\'' :: '\\' :: '\'' :: '\'' :: quoted v := rfl

theorem quoted_cons {c : Char} (h : c ≠ '\'') (v : List Char) :
    quoted (c :: v) = c :: quoted v := by
  rw [quoted, List.flatMap_cons, if_neg h]
  rfl

theorem quoted_of_not_mem {v : List Char} (h : '\'' ∉ v) : quoted v = v := by
  refine (List.flatMap_congr fun c hc => if_neg ?_).trans (List.flatMap_singleton' v)
  rintro rfl
  exact h hc

theorem toList_quoteArguments (arguments : String) :
    (quoteArguments arguments).toList = quoted arguments.toList := by
  rw [quoteArguments, replaceAll, String.toList_ofList]
  exact replaceFrom_one '\'' _ _

theorem quoteArguments_of_lacks {arguments : String} (h : Lacks '\'' arguments) :
    quoteArguments arguments = arguments := by
  rw [← String.toList_inj, toList_quoteArguments, quoted_of_not_mem h]

theorem quote_mem_quoteArguments {arguments : String} (h : '\'' ∈ arguments.toList) :
    '\'' ∈ (quoteArguments arguments).toList := by
  rw [toList_quoteArguments, quoted, List.mem_flatMap]
  exact ⟨'\'', h, by simp⟩

theorem inert_quoteArguments {arguments : String} (hopen : Lacks '\x7b' arguments)
    (hclose : Lacks '\x7d' arguments) {p : Placeholder} (hpart : ¬ arguments.toList <:+: mark p) :
    Inert p (quoteArguments arguments).toList where
  no_open := hopen.replaceAll (by decide)
  no_close := hclose.replaceAll (by decide)
  no_part := by
    by_cases h : '\'' ∈ arguments.toList
    · intro hstands
      have hquote : '\'' ∉ mark p := by cases p <;> decide
      exact hquote (hstands.subset (quote_mem_quoteArguments h))
    · rwa [quoteArguments_of_lacks h]

end Whittle.Template
