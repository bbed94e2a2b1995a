import Whittle.Grammar.Entry
import Whittle.Proofs.Text.Lacking
import Whittle.Text.Lines

/-!
# What the search for the entry point relies on

The search believes what a parser reports: on which rows a tree stands, and what the text of a leaf
is. `Tree.FitsIn` is what it takes for the names and the lines of an entry point to be names and
lines of the source.
-/

namespace Whittle.Grammar

open Text

namespace Tree

mutual

/-- Identifiers are single tokens: none at or below a tree goes on behind the end of a line. -/
def namesFit : Tree → Bool
  | node kind _ _ text _ _ children =>
    (kind ≠ .identifier || '\n' ∉ text.toList) && namesFitIn children

def namesFitIn : List Tree → Bool
  | [] => true
  | t :: ts => t.namesFit && namesFitIn ts

end

/-- The braces of the body of `main` stand on lines of the source, in order, and identifiers do not
go on behind the end of a line. -/
structure FitsIn (t : Tree) (source : String) : Prop where
  ordered : ∀ e, t.firstEntry = some e → e.openLine ≤ e.closeLine
  closes : ∀ e, t.firstEntry = some e → e.closeLine ≤ lineCount source
  names : t.namesFit = true

theorem namesFitIn_iff {ts : List Tree} :
    namesFitIn ts = true ↔ ∀ t ∈ ts, t.namesFit = true := by
  induction ts with
  | nil => simp [namesFitIn]
  | cons t ts ih => simp [namesFitIn, ih]

theorem namesFit_of_mem_children {t c : Tree} (h : t.namesFit = true) (hc : c ∈ t.children) :
    c.namesFit = true := by
  cases t with
  | node kind named field text startRow endRow children =>
    rw [namesFit, Bool.and_eq_true] at h
    exact namesFitIn_iff.mp h.2 c hc

theorem namesFit_of_child? {t c : Tree} {f : Field} (h : t.namesFit = true)
    (hc : t.child? f = some c) : c.namesFit = true :=
  namesFit_of_mem_children h (List.mem_of_find?_eq_some hc)

theorem lacks_text {t : Tree} (h : t.namesFit = true) (hk : t.kind = .identifier) :
    Lacks '\n' t.text := by
  cases t with
  | node kind named field text startRow endRow children =>
    cases hk
    simp only [namesFit, Bool.and_eq_true] at h
    simpa [Lacks, Tree.text] using h.1

mutual

theorem innermost_fits {k : Kind} {i : Tree} :
    ∀ t : Tree, t.namesFit = true → t.innermost k = some i → i.namesFit = true ∧ i.kind = k
  | node kind named field text startRow endRow children, h, hi => by
    unfold innermost at hi
    split at hi
    · rename_i hk
      cases hi
      exact ⟨h, hk⟩
    · rw [namesFit, Bool.and_eq_true] at h
      split at hi
      · exact innermostDeclarator_fits children h.2 hi
      · exact innermostLast_fits children h.2 hi

theorem innermostDeclarator_fits {k : Kind} {i : Tree} :
    ∀ ts : List Tree, namesFitIn ts = true → innermostDeclarator k ts = some i →
      i.namesFit = true ∧ i.kind = k
  | [], _, hi => nomatch hi
  | t :: ts, h, hi => by
    rw [namesFitIn, Bool.and_eq_true] at h
    unfold innermostDeclarator at hi
    split at hi
    · exact innermost_fits t h.1 hi
    · exact innermostDeclarator_fits ts h.2 hi

theorem innermostLast_fits {k : Kind} {i : Tree} :
    ∀ ts : List Tree, namesFitIn ts = true → innermostLast k ts = some i →
      i.namesFit = true ∧ i.kind = k
  | [], _, hi => nomatch hi
  | t :: ts, h, hi => by
    rw [namesFitIn, Bool.and_eq_true] at h
    unfold innermostLast at hi
    split at hi
    · exact innermostLast_fits ts h.2 hi
    · split at hi
      · exact innermost_fits t h.1 hi
      · cases hi

end

/-! ## Names of parameters -/

theorem lacks_parameterName {t : Tree} (h : t.namesFit = true) {n : String}
    (hn : t.parameterName = some n) : Lacks '\n' n := by
  obtain ⟨d, hd, hn⟩ := Option.bind_eq_some_iff.mp hn
  obtain ⟨i, hi, hn⟩ := Option.bind_eq_some_iff.mp hn
  cases hn
  obtain ⟨hfit, hkind⟩ := innermost_fits d (namesFit_of_child? h hd) hi
  exact lacks_text hfit hkind

theorem lacks_of_mem_parameterNames {t : Tree} (h : t.namesFit = true) {n : String}
    (hn : some n ∈ t.parameterNames) : Lacks '\n' n := by
  have hfit : ∀ p ∈ t.namedChildren.filter fun p => p.kind.isParameter, p.namesFit = true :=
    fun p hp => namesFit_of_mem_children h (List.mem_filter.mp (List.mem_filter.mp hp).1).1
  unfold parameterNames at hn
  split at hn
  · rename_i p hp
    rw [hp] at hfit
    split at hn
    · cases hn
    · exact lacks_parameterName (hfit p List.mem_cons_self) (List.mem_singleton.mp hn).symm
  · obtain ⟨p, hp, hname⟩ := List.mem_map.mp hn
    exact lacks_parameterName (hfit p hp) hname

theorem entryDefinition_fits {t : Tree} (h : t.namesFit = true) {e : EntryPoint}
    (he : t.entryDefinition = some e) :
    1 ≤ e.openLine ∧ ∀ n, some n ∈ e.parameters → Lacks '\n' n := by
  obtain ⟨body, -, he⟩ := Option.bind_eq_some_iff.mp he
  obtain ⟨d, hd, he⟩ := Option.bind_eq_some_iff.mp he
  obtain ⟨f, hf, he⟩ := Option.bind_eq_some_iff.mp he
  obtain ⟨name, -, he⟩ := Option.bind_eq_some_iff.mp he
  have hf := (innermost_fits d (namesFit_of_child? h hd) hf).1
  split at he
  · cases he
    refine ⟨Nat.succ_pos _, fun n hn => ?_⟩
    cases hp : f.child? .parameters with
    | none => rw [hp] at hn; cases hn
    | some p =>
      rw [hp] at hn
      exact lacks_of_mem_parameterNames (namesFit_of_child? hf hp) hn
  · cases he

/-! ## The search -/

mutual

theorem firstEntry_fits {e : EntryPoint} :
    ∀ t : Tree, t.namesFit = true → t.firstEntry = some e →
      1 ≤ e.openLine ∧ ∀ n, some n ∈ e.parameters → Lacks '\n' n
  | node kind named field text startRow endRow children, h, he => by
    unfold firstEntry at he
    split at he
    · exact entryDefinition_fits h he
    · split at he
      · cases he
      · rw [namesFit, Bool.and_eq_true] at h
        exact firstEntryIn_fits children h.2 he

theorem firstEntryIn_fits {e : EntryPoint} :
    ∀ ts : List Tree, namesFitIn ts = true → firstEntryIn ts = some e →
      1 ≤ e.openLine ∧ ∀ n, some n ∈ e.parameters → Lacks '\n' n
  | [], _, he => nomatch he
  | t :: ts, h, he => by
    rw [namesFitIn, Bool.and_eq_true] at h
    unfold firstEntryIn at he
    split at he
    · split at he
      · rename_i hfirst
        cases he
        exact firstEntry_fits t h.1 hfirst
      · exact firstEntryIn_fits ts h.2 he
    · exact firstEntryIn_fits ts h.2 he

end

end Tree

theorem EntryPoint.mem_of_countAndValues {e : EntryPoint} {count values : String}
    (h : e.countAndValues = some (count, values)) :
    some count ∈ e.parameters ∧ some values ∈ e.parameters := by
  unfold countAndValues at h
  split at h
  · rename_i c v rest hp
    cases h
    rw [hp]
    exact ⟨List.mem_cons_self, List.mem_cons_of_mem _ List.mem_cons_self⟩
  · cases h

theorem entryOf_eq_ok {parse : Language → String → Except Fault Tree} {language : Language}
    {source : String} {e : EntryPoint} (h : entryOf parse language source = .ok e) :
    ∃ t, parse language source = .ok t ∧ t.firstEntry = some e := by
  unfold entryOf at h
  cases ht : parse language source with
  | error f => rw [ht] at h; cases h
  | ok t =>
    rw [ht] at h
    cases hf : t.firstEntry with
    | none => simp only [bind, Except.bind, hf] at h; cases h
    | some e' =>
      simp only [bind, Except.bind, hf] at h
      cases h
      exact ⟨t, rfl, hf⟩

end Whittle.Grammar
