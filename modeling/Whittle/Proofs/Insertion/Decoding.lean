import Whittle.Proofs.Grammar.Constants
import Whittle.Proofs.Insertion.Planting
import Whittle.Proofs.Text.Replacing

/-!
# Reading the planted lines back

`plantedLines` writes arguments as string literals. Here the two lines are cut into tokens and read
again, as the declaration of an array and as assignments: the array has the arguments as the values
of its literals, in order, between the name of the program and a last zero, and the count is the
index of that zero. What stands in an argument can neither close its literal nor start an
initializer, because the text of the literal ends where `dropQuoted` ends it.
-/

namespace Whittle.Insertion

open Text Grammar

/-! ## Reading declarations and assignments -/

/-- What an initializer or the right side of an assignment stands for. -/
inductive Operand where
  | name (name : String)
  | element (array : String) (index : Nat)
  | number (n : Nat)
  /-- String literals side by side, cast to a pointer to characters. -/
  | text (octets : List UInt8)
  deriving DecidableEq, Repr

def joinedValue (literals : List Lexeme) : Option (List UInt8) :=
  if literals ≠ [] ∧ literals.all (·.kind = .string) then
    (literals.mapM fun l => literalValue l.text).map List.flatten
  else none

def readOperand : List Lexeme → Option Operand
  | [⟨.word, name⟩] => some (.name name)
  | [⟨.number, n⟩] => (decimalValue n).map .number
  | [⟨.word, array⟩, ⟨.punct, "["⟩, ⟨.number, n⟩, ⟨.punct, "]"⟩] =>
    (decimalValue n).map (.element array)
  | ⟨.punct, "("⟩ :: ⟨.word, "char"⟩ :: ⟨.punct, "*"⟩ :: ⟨.punct, ")"⟩ :: literals =>
    (joinedValue literals).map .text
  | _ => none

/-- The items of a list in braces, of which `item` is read so far and the opening brace is left
out, and what follows the list. Commas in brackets do not separate items. -/
def itemsFrom (depth : Nat) (item : List Lexeme) :
    List Lexeme → Option (List (List Lexeme) × List Lexeme)
  | [] => none
  | l :: ls =>
    if l.kind = .punct ∧ l.text ∈ ["(", "[", "\x7b"] then itemsFrom (depth + 1) (item ++ [l]) ls
    else if l.kind = .punct ∧ l.text ∈ [")", "]", "\x7d"] then
      match depth with
      | 0 => if l.text = "\x7d" then some ([item], ls) else none
      | outer + 1 => itemsFrom outer (item ++ [l]) ls
    else if depth = 0 ∧ l = ⟨.punct, ","⟩ then
      (itemsFrom 0 [] ls).map fun r => (item :: r.1, r.2)
    else itemsFrom depth (item ++ [l]) ls

/-- The name and the initializers of an array of pointers to characters. -/
def readArray : List Lexeme → Option (String × List Operand)
  | ⟨.word, "char"⟩ :: ⟨.punct, "*"⟩ :: ⟨.word, name⟩ :: ⟨.punct, "["⟩ :: ⟨.punct, "]"⟩ ::
      ⟨.punct, "="⟩ :: ⟨.punct, "\x7b"⟩ :: ls =>
    match itemsFrom 0 [] ls with
    | some (items, [⟨.punct, ";"⟩]) => (items.mapM readOperand).map (name, ·)
    | _ => none
  | _ => none

/-- The names that are assigned to, one after the other, and what they are assigned. -/
def readAssignments : List Lexeme → Option (List (String × Operand))
  | [] => some []
  | ⟨.word, name⟩ :: ⟨.punct, "="⟩ :: l :: ⟨.punct, ";"⟩ :: ls =>
    match readOperand [l], readAssignments ls with
    | some operand, some rest => some ((name, operand) :: rest)
    | _, _ => none
  | _ => none

/-! ## Literals -/

theorem toList_stringLiteral (s : String) :
    (stringLiteral s).toList = '"' :: (s.toList.flatMap escapeChar ++ ['"']) := by
  have hescape : ∀ c, ((if c = '\\' then ['\\', '\\'] else [c]).flatMap
      fun c => if c = '"' then ['\\', '"'] else [c]) = escapeChar c := by
    intro c
    by_cases hb : c = '\\'
    · subst hb; rfl
    · simp [escapeChar, hb]
  simp [stringLiteral, replaceAll, replaceFrom_one, List.flatMap_assoc, hescape]

/-- A literal stands for the text it was made of. -/
theorem literalValue_stringLiteral {s : String} (h : Lacks '\n' s) :
    literalValue (stringLiteral s) = some (octets s) := by
  rw [literalValue, toList_stringLiteral, octets_eq]
  simp [bodyValue_escape h]

/-! ## The lexemes of the two lines -/

def literalLexemes (a : String) : List Lexeme :=
  [⟨.punct, "("⟩, ⟨.word, "char"⟩, ⟨.punct, "*"⟩, ⟨.punct, ")"⟩, ⟨.string, stringLiteral a⟩]

def zeroLexeme : Lexeme := ⟨.number, "0"⟩

def commaLexeme : Lexeme := ⟨.punct, ","⟩

/-- The text of an argument among the initializers, with the comma before it. -/
def literalText (a : String) : List Char :=
  [',', ' ', '('] ++ "char".toList ++ ['*', ')'] ++ (stringLiteral a).toList

variable {language : Language} {cs rest : List Char} {ls : List Lexeme}

theorem isIdentifier_char : IsIdentifier "char" := ⟨by decide, by decide⟩

theorem isIdentifier_argumentArray : IsIdentifier Artifacts.argumentArray := ⟨by decide, by decide⟩

/-- No argument changes how what follows its literal is cut. -/
theorem cuts_literalText {a : String} (ha : Lacks '\n' a) (h : Cuts language cs ls rest) :
    Cuts language (literalText a ++ cs) (commaLexeme :: literalLexemes a ++ ls) rest := by
  have hstring : Cuts language ((stringLiteral a).toList ++ cs)
      (⟨.string, stringLiteral a⟩ :: ls) rest := by
    have hbody : dropQuoted '"' .content (a.toList.flatMap escapeChar ++ ['"'] ++ cs) = cs := by
      rw [List.append_assoc]
      exact dropQuoted_escape ha
    have hcuts := Cuts.string hbody h
    rwa [← toList_stringLiteral, String.ofList_toList] at hcuts
  refine .single (by decide) (.space (.single (by decide) ?_))
  refine .word isIdentifier_char (by decide) (.punct (by decide) (by cases language <;> rfl) ?_)
  exact .single (by decide) hstring

theorem cuts_literalTexts {arguments : List String} (ha : ∀ a ∈ arguments, Lacks '\n' a)
    (h : Cuts language cs ls rest) :
    Cuts language (arguments.flatMap literalText ++ cs)
      (arguments.flatMap (fun a => commaLexeme :: literalLexemes a) ++ ls) rest := by
  induction arguments with
  | nil => exact h
  | cons a as ih =>
    rw [List.flatMap_cons, List.flatMap_cons, List.append_assoc, List.append_assoc]
    exact cuts_literalText (ha a List.mem_cons_self)
      (ih fun b hb => ha b (List.mem_cons_of_mem _ hb))

/-- The initializers behind the first, and the end of the declaration. -/
def tailLexemes (arguments : List String) : List Lexeme :=
  arguments.flatMap (fun a => commaLexeme :: literalLexemes a) ++
    [commaLexeme, zeroLexeme, ⟨.punct, "\x7d"⟩, ⟨.punct, ";"⟩]

def elementLexemes (values : String) : List Lexeme :=
  [⟨.word, values⟩, ⟨.punct, "["⟩, zeroLexeme, ⟨.punct, "]"⟩]

def headLexemes : List Lexeme :=
  [⟨.word, "char"⟩, ⟨.punct, "*"⟩, ⟨.word, Artifacts.argumentArray⟩, ⟨.punct, "["⟩, ⟨.punct, "]"⟩,
    ⟨.punct, "="⟩, ⟨.punct, "\x7b"⟩]

/-- The text of the elements of a list behind the first, each with the separator before it. -/
theorem intercalate_cons {sep : List Char} {l : List Char} {ls : List (List Char)} :
    sep.intercalate (l :: ls) = l ++ ls.flatMap (sep ++ ·) := by
  induction ls generalizing l with
  | nil => simp
  | cons k ks ih => simp [List.intercalate_cons_cons, ih]

def headText : List Char :=
  "char".toList ++ ['*', ' '] ++ Artifacts.argumentArray.toList ++
    ['[', ']', ' ', '=', ' ', '\x7b', ' ']

def declaredLexemes (arguments : List String) (values : String) : List Lexeme :=
  headLexemes ++ elementLexemes values ++ tailLexemes arguments

def assignedLexemes (n : Nat) (count values : String) : List Lexeme :=
  [⟨.word, count⟩, ⟨.punct, "="⟩, ⟨.number, natText n⟩, ⟨.punct, ";"⟩,
    ⟨.word, values⟩, ⟨.punct, "="⟩, ⟨.word, Artifacts.argumentArray⟩, ⟨.punct, ";"⟩]

def elementText (values : String) : List Char := values.toList ++ ['[', '0', ']']

def tailText (arguments : List String) : List Char :=
  arguments.flatMap literalText ++ [',', ' ', '0', ' ', '\x7d', ';']

def assignedText (n : Nat) (count values : String) : List Char :=
  count.toList ++ [' ', '=', ' '] ++ writeNat n ++ [';', ' '] ++ values.toList ++
    [' ', '=', ' '] ++ Artifacts.argumentArray.toList ++ [';']

theorem plantedLines_eq (arguments : List String) (count values : String) :
    plantedLines arguments count values =
      [String.ofList (headText ++ elementText values ++ tailText arguments),
        String.ofList (assignedText (arguments.length + 1) count values)] := by
  have hmap : (plantedLines arguments count values).map String.toList =
      [headText ++ elementText values ++ tailText arguments,
        assignedText (arguments.length + 1) count values] := by
    rw [plantedLines, List.map_cons, List.map_cons, List.map_nil, List.cons_eq_cons,
      List.cons_eq_cons]
    refine ⟨?_, ?_, rfl⟩
    · simp [headText, elementText, tailText, intercalate_cons, List.flatMap_map]
      rfl
    · simp [assignedText, natText]
  have hback : ∀ ls : List String, (ls.map String.toList).map String.ofList = ls := by
    intro ls
    simp
  rw [← hback (plantedLines arguments count values), hmap]
  rfl

theorem cuts_zero {c : Char} (hc : endsWord c = true) (h : Cuts language (c :: cs) ls rest) :
    Cuts language ('0' :: c :: cs) (zeroLexeme :: ls) rest :=
  Cuts.number (List.cons_ne_nil '0' []) (by decide) hc h

section

variable {count values : String} (hc : IsIdentifier count) (hv : IsIdentifier values)

include hv

theorem cuts_declared (language : Language) {arguments : List String} (ha : ∀ a ∈ arguments, Lacks '\n' a)
    (rest : List Char) :
    Cuts language (headText ++ elementText values ++ tailText arguments ++ rest)
      (declaredLexemes arguments values) rest := by
  have hclose : Cuts language ([',', ' ', '0', ' ', '\x7d', ';'] ++ rest)
      [commaLexeme, zeroLexeme, ⟨.punct, "\x7d"⟩, ⟨.punct, ";"⟩] rest := by
    refine .single (by decide) (.space ?_)
    refine cuts_zero (by decide) (.space ?_)
    exact .single (by decide) (.single (by decide) (cuts_rest language rest))
  have hindex : Cuts language (['[', '0', ']'] ++ (arguments.flatMap literalText ++
      ([',', ' ', '0', ' ', '\x7d', ';'] ++ rest)))
      ([⟨.punct, "["⟩, zeroLexeme, ⟨.punct, "]"⟩] ++ tailLexemes arguments) rest := by
    refine .single (by decide) ?_
    refine cuts_zero (by decide) ?_
    exact .single (by decide) (cuts_literalTexts ha hclose)
  simp only [declaredLexemes, headText, elementText, tailText, List.append_assoc]
  refine .word isIdentifier_char (by decide) (.punct (by decide) (by cases language <;> rfl) ?_)
  refine .space (.word isIdentifier_argumentArray (by decide) ?_)
  refine .single (by decide) (.single (by decide) (.space ?_))
  refine .punct (by decide) (by cases language <;> rfl) (.space ?_)
  exact .single (by decide) (.space (.word hv (by decide) hindex))

include hc

theorem cuts_assigned (language : Language) (n : Nat) (rest : List Char) :
    Cuts language (assignedText n count values ++ rest) (assignedLexemes n count values) rest := by
  simp only [assignedText, List.append_assoc]
  have hequals : ∀ {cs : List Char} {ls : List Lexeme}, Cuts language cs ls rest →
      Cuts language ([' ', '=', ' '] ++ cs) (⟨.punct, "="⟩ :: ls) rest := fun h =>
    .space (.punct (by decide) (by cases language <;> rfl) (.space h))
  refine .word hc (by decide) (hequals ?_)
  refine .number (writeNat_ne_nil n) (all_isDigit_writeNat n) (by decide) ?_
  refine .single (by decide) (.space (.word hv (by decide) (hequals ?_)))
  exact .word isIdentifier_argumentArray (by decide) (.single (by decide) (cuts_rest language rest))

end

/-! ## The values that are read back -/

theorem itemsFrom_tailLexemes (item : List Lexeme) (arguments : List String) :
    itemsFrom 0 item (tailLexemes arguments) =
      some (item :: arguments.map literalLexemes ++ [[zeroLexeme]], [⟨.punct, ";"⟩]) := by
  induction arguments generalizing item with
  | nil => rfl
  | cons a as ih =>
    have hstep : itemsFrom 0 item (tailLexemes (a :: as)) =
        (itemsFrom 0 (literalLexemes a) (tailLexemes as)).map fun r => (item :: r.1, r.2) := rfl
    rw [hstep, ih]
    rfl

theorem readOperand_literalLexemes {a : String} (ha : Lacks '\n' a) :
    readOperand (literalLexemes a) = some (.text (octets a)) := by
  simp [readOperand, literalLexemes, joinedValue, literalValue_stringLiteral ha]

theorem mapM_readOperand {arguments : List String} (ha : ∀ a ∈ arguments, Lacks '\n' a) :
    (arguments.map literalLexemes ++ [[zeroLexeme]]).mapM readOperand =
      some (arguments.map (fun a => .text (octets a)) ++ [.number 0]) := by
  induction arguments with
  | nil => rfl
  | cons a as ih =>
    have ih := ih fun b hb => ha b (List.mem_cons_of_mem _ hb)
    simp [readOperand_literalLexemes (ha a List.mem_cons_self), ih]

theorem readArray_declared {arguments : List String} {values : String}
    (ha : ∀ a ∈ arguments, Lacks '\n' a) :
    readArray (declaredLexemes arguments values) =
      some (Artifacts.argumentArray,
        .element values 0 :: arguments.map (fun a => .text (octets a)) ++ [.number 0]) := by
  have hitems : itemsFrom 0 [] (elementLexemes values ++ tailLexemes arguments) =
      itemsFrom 0 (elementLexemes values) (tailLexemes arguments) := rfl
  have hfirst : readOperand (elementLexemes values) = some (.element values 0) := rfl
  have hread : readArray (declaredLexemes arguments values) =
      match itemsFrom 0 [] (elementLexemes values ++ tailLexemes arguments) with
      | some (items, [⟨.punct, ";"⟩]) =>
        (items.mapM readOperand).map (Artifacts.argumentArray, ·)
      | _ => none := rfl
  rw [hread, hitems, itemsFrom_tailLexemes]
  simp only [List.cons_append, List.mapM_cons, hfirst, mapM_readOperand ha]
  rfl

theorem head?_writeNat {n : Nat} (h : 0 < n) : (writeNat n).head? ≠ some '0' := by
  induction n using writeNat.induct with
  | case1 n hn =>
    unfold writeNat
    rw [if_pos hn, List.head?_cons]
    intro e
    have hvalue := digitValue_digitChar hn
    rw [Option.some.inj e] at hvalue
    exact absurd hvalue (Nat.ne_of_lt h)
  | case2 n hn ih =>
    unfold writeNat
    rw [if_neg hn, List.head?_append_of_ne_nil _ (writeNat_ne_nil _)]
    exact ih (by omega)

theorem decimalValue_natText (n : Nat) : decimalValue (natText n) = some n := by
  have hread : readNat (natText n).toList = some n := by
    rw [natText, String.toList_ofList, readNat_writeNat]
  rcases Nat.eq_zero_or_pos n with rfl | hn
  · have hzero : natText 0 = "0" := by rw [natText, writeNat]; rfl
    rw [decimalValue, if_neg (by simp [hzero]), hread]
  · have := head?_writeNat hn
    rw [decimalValue, if_neg (by simp [natText, this]), hread]

theorem readAssignments_assigned {n : Nat} {count values : String} :
    readAssignments (assignedLexemes n count values) =
      some [(count, .number n), (values, .name Artifacts.argumentArray)] := by
  simp [assignedLexemes, readAssignments, readOperand, decimalValue_natText]

/-- The characters at which a line may end. -/
def lineBreaks : List Char := ['\n', '\r'] ++ [0x0b, 0x0c, 0x2028, 0x2029].map Char.ofNat

theorem lacks_of_isIdentifier {s : String} (h : IsIdentifier s) : ∀ c ∈ lineBreaks, Lacks c s := by
  have hother : lineBreaks.all (fun c => !continuesWord c && c ≠ '\\') = true := by decide
  intro c hc hm
  have hbreak := List.all_eq_true.mp hother c hc
  rw [Bool.and_eq_true, Bool.not_eq_true', decide_eq_true_iff] at hbreak
  obtain ⟨hword, hback⟩ := hbreak
  rcases continues_of_mem h.whole c hm with h | h
  · rw [hword] at h; cases h
  · exact hback h

/-- What is written as arguments is read as the same arguments: no argument, whatever it holds,
closes its literal early or adds an initializer, and the count is the index of the last zero. -/
theorem plantedLines_read (language : Language) (arguments : String) {count values : String}
    (hc : IsIdentifier count) (hv : IsIdentifier values) :
    ∃ declared assigned initializers n,
      plantedLines (words arguments) count values = [declared, assigned] ∧
      (∀ c ∈ lineBreaks, Lacks c declared ∧ Lacks c assigned) ∧
      readArray (lexemes language declared) = some (Artifacts.argumentArray, initializers) ∧
      initializers =
        .element values 0 :: (words arguments).map (fun a => .text (octets a)) ++ [.number 0] ∧
      readAssignments (lexemes language assigned) =
        some [(count, .number n), (values, .name Artifacts.argumentArray)] ∧
      initializers[n]? = some (.number 0) ∧ n + 1 = initializers.length := by
  have hwords : ∀ a ∈ words arguments, Lacks '\n' a :=
    fun a ha => lacks_of_mem_words (by decide) ha
  have hlines := plantedLines_eq (words arguments) count values
  refine ⟨_, _, _, (words arguments).length + 1, hlines, ?_, ?_, rfl, ?_, ?_, ?_⟩
  · intro c hbreak
    have hblank : lineBreaks.all (fun c => isBlank c && c ≠ ' ') = true := by decide
    have hblank := List.all_eq_true.mp hblank c hbreak
    rw [Bool.and_eq_true, decide_eq_true_iff] at hblank
    have hlacks : ∀ l ∈ plantedLines (words arguments) count values, Lacks c l :=
      lacks_plantedLines hblank.1 hblank.2
        (lacks_of_isIdentifier hc c hbreak) (lacks_of_isIdentifier hv c hbreak)
    rw [hlines] at hlacks
    exact ⟨hlacks _ List.mem_cons_self, hlacks _ (List.mem_cons_of_mem _ List.mem_cons_self)⟩
  · have hcuts := cuts_declared hv language hwords []
    rw [List.append_nil] at hcuts
    rw [hcuts.lexemes_eq]
    exact readArray_declared hwords
  · have hcuts := cuts_assigned hc hv language ((words arguments).length + 1) []
    rw [List.append_nil] at hcuts
    rw [hcuts.lexemes_eq]
    exact readAssignments_assigned
  · have hlast : ((words arguments).map fun a => Operand.text (octets a)).length =
        (words arguments).length := List.length_map _
    rw [List.cons_append, List.getElem?_cons_succ, ← hlast, List.getElem?_concat_length]
  · simp

/-- The condition of `plantedLines_read` holds of usual names. -/
theorem plantedLines_read_usual :
    IsIdentifier "argc" ∧ IsIdentifier "argv" ∧
      ∃ declared, declared ∈ plantedLines (words "-o \"a\\\" \x7d;") "argc" "argv" ∧
        readArray (lexemes .c declared) = some ("autopie_argv",
          [.element "argv" 0, .text (octets "-o"), .text (octets "\"a\\\""), .text (octets "\x7d;"),
            .number 0]) := by
  have hc : IsIdentifier "argc" := ⟨by decide, by decide⟩
  have hv : IsIdentifier "argv" := ⟨by decide, by decide⟩
  have hwords : words "-o \"a\\\" \x7d;" = ["-o", "\"a\\\"", "\x7d;"] := by decide +kernel
  obtain ⟨declared, assigned, initializers, n, hlines, -, hread, hinit, -⟩ :=
    plantedLines_read .c "-o \"a\\\" \x7d;" hc hv
  refine ⟨hc, hv, declared, by rw [hlines]; exact List.mem_cons_self, ?_⟩
  rw [hread, hinit, hwords]
  rfl

end Whittle.Insertion
