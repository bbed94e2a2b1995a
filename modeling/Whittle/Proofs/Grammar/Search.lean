import Whittle.Proofs.Grammar.Entry

/-!
# The definition the search finds

A place in a tree is written as the indices of children from the root down, and places are ordered
as trees begin in the source (`Tree.Leads`). A definition of `main` that the search
may answer stands at an open place (`Tree.StartsAt`): it is reached by named children and lies in no
function and in no nested scope. Of these the search finds the first, and it fails only if there is
none (`entryOf_finds_first`).
-/

namespace Whittle.Grammar

namespace Tree

/-! ## The way inwards -/

/-- The next tree inwards: the first child in the field of a declarator or, where there is none, the
last named child. -/
def inner? (t : Tree) : Option Tree := (t.child? .declarator).or t.namedChildren.getLast?

/-- A tree of a kind that is met on the way inwards, and the first one of its kind. -/
inductive Meets (k : Kind) : Tree → Tree → Prop
  | here {t : Tree} (hk : t.kind = k) : Meets k t t
  | further {t u v : Tree} (hk : t.kind ≠ k) (hi : t.inner? = some u) (h : Meets k u v) :
    Meets k t v

theorem innermostDeclarator_eq (k : Kind) (ts : List Tree) :
    innermostDeclarator k ts =
      (ts.find? fun c => c.field = some .declarator).bind (innermost k) := by
  induction ts with
  | nil => rfl
  | cons t ts ih =>
    rw [innermostDeclarator, List.find?_cons]
    by_cases h : t.field = some .declarator <;> simp [h, ih]

theorem innermostLast_eq (k : Kind) (ts : List Tree) :
    innermostLast k ts = (ts.filter named).getLast?.bind (innermost k) := by
  induction ts with
  | nil => rfl
  | cons t ts ih =>
    rw [innermostLast, List.filter_cons]
    by_cases hts : ts.any named = true
    · have hne : ts.filter named ≠ [] := by
        obtain ⟨u, hu, hn⟩ := List.any_eq_true.mp hts
        exact List.ne_nil_of_mem (List.mem_filter.mpr ⟨hu, hn⟩)
      rw [if_pos hts, ih]
      split
      · rw [List.getLast?_cons_of_ne_nil hne]
      · rfl
    · have hnil : ts.filter named = [] := by
        rw [List.filter_eq_nil_iff]
        exact fun u hu hn => hts (List.any_eq_true.mpr ⟨u, hu, hn⟩)
      rw [if_neg hts, hnil]
      split <;> rfl

theorem innermost_eq (k : Kind) (t : Tree) :
    t.innermost k = if t.kind = k then some t else t.inner?.bind (innermost k) := by
  obtain ⟨kind, named, field, text, startRow, endRow, children⟩ := t
  rw [innermost, innermostDeclarator_eq, innermostLast_eq]
  by_cases hk : kind = k
  · rw [if_pos hk]
    exact (if_pos hk).symm
  · rw [if_neg hk]
    refine Eq.trans ?_ (if_neg hk).symm
    unfold inner? child? namedChildren
    dsimp only [Tree.children]
    by_cases hany : (children.any fun c => c.field = some .declarator) = true
    · rw [if_pos hany]
      cases hf : children.find? fun c => c.field = some .declarator with
      | none =>
        obtain ⟨c, hc, hd⟩ := List.any_eq_true.mp hany
        exact absurd hd (by simpa using List.find?_eq_none.mp hf c hc)
      | some c => rfl
    · rw [if_neg hany, List.find?_eq_none.mpr, Option.none_or]
      exact fun c hc hd => hany (List.any_eq_true.mpr ⟨c, hc, hd⟩)

theorem sizeOf_of_mem_children {t c : Tree} (h : c ∈ t.children) : sizeOf c < sizeOf t := by
  obtain ⟨kind, named, field, text, startRow, endRow, children⟩ := t
  have := List.sizeOf_lt_of_mem h
  simp only [node.sizeOf_spec, Tree.children] at this ⊢
  omega

theorem inner?_mem {t u : Tree} (h : t.inner? = some u) : u ∈ t.children := by
  rcases Option.or_eq_some_iff.mp h with h | ⟨-, h⟩
  · exact List.mem_of_find?_eq_some h
  · exact (List.mem_filter.mp (List.mem_of_getLast? h)).1

theorem innermost_iff {k : Kind} {t u : Tree} : t.innermost k = some u ↔ Meets k t u := by
  constructor
  · intro h
    induction hn : sizeOf t using Nat.strongRecOn generalizing t with
    | _ n ih =>
      rw [innermost_eq] at h
      split at h
      · rename_i hk
        cases h
        exact .here hk
      · rename_i hk
        obtain ⟨v, hv, h⟩ := Option.bind_eq_some_iff.mp h
        exact .further hk hv (ih _ (hn ▸ sizeOf_of_mem_children (inner?_mem hv)) h rfl)
  · intro h
    induction h with
    | here hk => rw [innermost_eq, if_pos hk]
    | further hk hi _ ih => rw [innermost_eq, if_neg hk, hi, Option.bind_some, ih]

/-! ## Definitions of `main` -/

/-- A definition of `main` and what is said of it: a definition of a function with a body, whose
first function declarator on the way inwards carries the plain name. -/
structure Defines (t : Tree) (e : EntryPoint) : Prop where
  definition : t.kind = .functionDefinition
  body : ∃ body, t.child? .body = some body ∧ e.openLine = body.startRow + 1 ∧
    e.closeLine = body.endRow + 1
  function : ∃ d f name, t.child? .declarator = some d ∧ Meets .functionDeclarator d f ∧
    f.child? .declarator = some name ∧ name.kind = .identifier ∧ name.text = "main" ∧
    e.parameters = ((f.child? .parameters).map parameterNames).getD []

theorem entryDefinition_iff {t : Tree} (hk : t.kind = .functionDefinition) {e : EntryPoint} :
    t.entryDefinition = some e ↔ t.Defines e := by
  constructor
  · intro h
    obtain ⟨body, hbody, h⟩ := Option.bind_eq_some_iff.mp h
    obtain ⟨d, hd, h⟩ := Option.bind_eq_some_iff.mp h
    obtain ⟨f, hf, h⟩ := Option.bind_eq_some_iff.mp h
    obtain ⟨name, hname, h⟩ := Option.bind_eq_some_iff.mp h
    split at h
    · rename_i hmain
      cases h
      exact ⟨hk, ⟨body, hbody, rfl, rfl⟩, d, f, name, hd, innermost_iff.mp hf, hname, hmain.1,
        hmain.2, rfl⟩
    · cases h
  · rintro ⟨-, ⟨body, hbody, hopen, hclose⟩, d, f, name, hd, hf, hname, hkind, hmain, hparameters⟩
    obtain ⟨openLine, closeLine, parameters⟩ := e
    dsimp only at hopen hclose hparameters
    subst hopen hclose hparameters
    simp only [entryDefinition, hbody, hd, innermost_iff.mpr hf, hname, Option.bind_eq_bind,
      Option.bind_some]
    exact if_pos ⟨hkind, hmain⟩

/-! ## Open places -/

/-- The tree at a place. -/
def at? : Tree → List Nat → Option Tree
  | t, [] => some t
  | t, i :: p => t.children[i]?.bind fun c => c.at? p

/-- A definition of `main` stands at a place that is reached by named children, and in no other
definition of a function nor in a nested scope. Prototypes have no body, and members and qualified
names are no plain ones, so none of them is a definition of `main` here. -/
structure StartsAt (t : Tree) (p : List Nat) (e : EntryPoint) : Prop where
  defines : ∃ u, t.at? p = some u ∧ u.Defines e
  named : ∀ q u, q <+: p → q ≠ [] → t.at? q = some u → u.named = true
  outside : ∀ q u, q <+: p → q ≠ p → t.at? q = some u →
    u.kind ≠ .functionDefinition ∧ u.kind.isNestedScope = false

theorem startsAt_nil {t : Tree} {e : EntryPoint} : t.StartsAt [] e ↔ t.Defines e := by
  constructor
  · rintro ⟨⟨u, hu, h⟩, -, -⟩
    cases hu
    exact h
  · intro h
    exact ⟨⟨t, rfl, h⟩, fun q u hq hne => absurd (List.prefix_nil.mp hq) hne,
      fun q u hq hne => absurd (List.prefix_nil.mp hq) hne⟩

/-- The same in a list of children: the first index is that of a child, which is named. -/
def StartsIn (ts : List Tree) : List Nat → EntryPoint → Prop
  | [], _ => False
  | i :: p, e => ∃ c, ts[i]? = some c ∧ c.named = true ∧ c.StartsAt p e

theorem startsAt_cons {t : Tree} {i : Nat} {p : List Nat} {e : EntryPoint} :
    t.StartsAt (i :: p) e ↔ (t.kind ≠ .functionDefinition ∧ t.kind.isNestedScope = false) ∧
      StartsIn t.children (i :: p) e := by
  constructor
  · rintro ⟨⟨u, hu, h⟩, hnamed, houtside⟩
    obtain ⟨c, hc, hu⟩ := Option.bind_eq_some_iff.mp hu
    have hbelow (q : List Nat) : t.at? (i :: q) = c.at? q := by rw [at?, hc, Option.bind_some]
    refine ⟨houtside [] t (List.nil_prefix) (List.cons_ne_nil i p).symm rfl, c, hc,
      hnamed [i] c ?_ (List.cons_ne_nil i []) ((hbelow []).trans rfl), ⟨u, hu, h⟩, ?_, ?_⟩
    · exact List.cons_prefix_cons.mpr ⟨rfl, List.nil_prefix⟩
    · intro q v hq _ hv
      exact hnamed (i :: q) v (List.cons_prefix_cons.mpr ⟨rfl, hq⟩) (List.cons_ne_nil i q)
        ((hbelow q).trans hv)
    · intro q v hq hne hv
      exact houtside (i :: q) v (List.cons_prefix_cons.mpr ⟨rfl, hq⟩)
        (fun e => hne (List.cons.inj e).2) ((hbelow q).trans hv)
  · rintro ⟨hopen, c, hc, hname, ⟨u, hu, h⟩, hnamed, houtside⟩
    have hbelow (q : List Nat) : t.at? (i :: q) = c.at? q := by rw [at?, hc, Option.bind_some]
    refine ⟨⟨u, (hbelow p).trans hu, h⟩, fun q v hq hne hv => ?_, fun q v hq hne hv => ?_⟩
    · cases q with
      | nil => exact absurd rfl hne
      | cons j q =>
        obtain ⟨rfl, hqp⟩ := List.cons_prefix_cons.mp hq
        rw [hbelow] at hv
        by_cases hroot : q = []
        · subst hroot
          cases hv
          exact hname
        · exact hnamed q v hqp hroot hv
    · cases q with
      | nil =>
        cases hv
        exact hopen
      | cons j q =>
        obtain ⟨rfl, hqp⟩ := List.cons_prefix_cons.mp hq
        rw [hbelow] at hv
        exact houtside q v hqp (fun e => hne (congrArg _ e)) hv

/-- The tree at the first place begins before the one at the second, or they are the same place. -/
def Leads : List Nat → List Nat → Prop
  | [], _ => True
  | _ :: _, [] => False
  | i :: p, j :: q => i < j ∨ i = j ∧ Leads p q

theorem Leads.antisymm {p q : List Nat} (h : Leads p q) (h' : Leads q p) : p = q := by
  induction p generalizing q with
  | nil =>
    cases q with
    | nil => rfl
    | cons j q => cases h'
  | cons i p ih =>
    cases q with
    | nil => cases h
    | cons j q =>
      rcases h with h | ⟨rfl, h⟩
      · rcases h' with h' | ⟨rfl, -⟩ <;> omega
      · rcases h' with h' | ⟨-, h'⟩
        · omega
        · rw [ih h h']

/-- Where a definition of `main` stands, and there is none before it. -/
def StartsFirst (t : Tree) (p : List Nat) (e : EntryPoint) : Prop :=
  t.StartsAt p e ∧ ∀ q e', t.StartsAt q e' → Leads p q

/-! ## The search -/

theorem firstEntry_eq (t : Tree) :
    t.firstEntry = if t.kind = .functionDefinition then t.entryDefinition
      else if t.kind.isNestedScope then none else firstEntryIn t.children := by
  obtain ⟨kind, named, field, text, startRow, endRow, children⟩ := t
  rw [firstEntry]
  rfl

mutual

theorem firstEntry_eq_none : ∀ t : Tree, t.firstEntry = none → ∀ p e, ¬ t.StartsAt p e
  | node kind named field text startRow endRow children, hnone, p, e, h => by
    rw [firstEntry_eq] at hnone
    cases p with
    | nil =>
      have hdefines := startsAt_nil.mp h
      rw [if_pos hdefines.definition,
        (entryDefinition_iff hdefines.definition).mpr hdefines] at hnone
      cases hnone
    | cons i p =>
      obtain ⟨⟨hkind, hscope⟩, h⟩ := startsAt_cons.mp h
      rw [if_neg hkind, if_neg (Bool.eq_false_iff.mp hscope)] at hnone
      exact firstEntryIn_eq_none children hnone (i :: p) e h

theorem firstEntryIn_eq_none :
    ∀ ts : List Tree, firstEntryIn ts = none → ∀ p e, ¬ StartsIn ts p e
  | [], _, _ :: _, _, ⟨_, hc, _⟩ => nomatch hc
  | t :: ts, hnone, i :: p, e, h => by
    unfold firstEntryIn at hnone
    cases i with
    | zero =>
      obtain ⟨c, hc, hname, h⟩ := h
      cases hc
      rw [if_pos hname] at hnone
      split at hnone
      · cases hnone
      · rename_i hfirst
        exact firstEntry_eq_none t hfirst p e h
    | succ i =>
      refine firstEntryIn_eq_none ts ?_ (i :: p) e h
      split at hnone
      · split at hnone
        · cases hnone
        · exact hnone
      · exact hnone

end

mutual

theorem firstEntry_first {e : EntryPoint} :
    ∀ t : Tree, t.firstEntry = some e → ∃ p, t.StartsFirst p e
  | node kind named field text startRow endRow children, h => by
    rw [firstEntry_eq] at h
    split at h
    · rename_i hkind
      exact ⟨[], startsAt_nil.mpr ((entryDefinition_iff hkind).mp h), fun q _ _ => trivial⟩
    · rename_i hkind
      split at h
      · cases h
      · rename_i hscope
        obtain ⟨p, hstarts, hfirst⟩ := firstEntryIn_first children h
        cases p with
        | nil => cases hstarts
        | cons i p =>
          have hopen := Bool.eq_false_iff.mpr hscope
          refine ⟨i :: p, startsAt_cons.mpr ⟨⟨hkind, hopen⟩, hstarts⟩, fun q e' hq => ?_⟩
          cases q with
          | nil => exact absurd (startsAt_nil.mp hq).definition hkind
          | cons j q => exact hfirst (j :: q) e' (startsAt_cons.mp hq).2

theorem firstEntryIn_first {e : EntryPoint} :
    ∀ ts : List Tree, firstEntryIn ts = some e →
      ∃ p, StartsIn ts p e ∧ ∀ q e', StartsIn ts q e' → Leads p q
  | [], h => nomatch h
  | t :: ts, h => by
    unfold firstEntryIn at h
    have hlater (hnone : t.named = true → t.firstEntry = none) (h : firstEntryIn ts = some e) :
        ∃ p, StartsIn (t :: ts) p e ∧ ∀ q e', StartsIn (t :: ts) q e' → Leads p q := by
      obtain ⟨p, hstarts, hfirst⟩ := firstEntryIn_first ts h
      cases p with
      | nil => cases hstarts
      | cons i p =>
        refine ⟨(i + 1) :: p, hstarts, fun q e' hq => ?_⟩
        match q, hq with
        | 0 :: q, ⟨c, hc, hname, hq⟩ =>
          cases hc
          exact absurd hq (firstEntry_eq_none t (hnone hname) q e')
        | (j + 1) :: q, hq =>
          exact (hfirst (j :: q) e' hq).imp Nat.succ_lt_succ (And.imp_left (congrArg _))
    split at h
    · rename_i hname
      split at h
      · rename_i hentry
        cases h
        obtain ⟨p, hstarts, hfirst⟩ := firstEntry_first t hentry
        refine ⟨0 :: p, ⟨t, rfl, hname, hstarts⟩, fun q e' hq => ?_⟩
        match q, hq with
        | 0 :: q, ⟨c, hc, _, hq⟩ =>
          cases hc
          exact .inr ⟨rfl, hfirst q e' hq⟩
        | (j + 1) :: q, _ => exact .inl (Nat.succ_pos j)
      · rename_i hentry
        exact hlater (fun _ => hentry) h
    · rename_i hname
      exact hlater (fun h => absurd h hname) h

end

theorem Defines.unique {t : Tree} {e e' : EntryPoint} (h : t.Defines e) (h' : t.Defines e') :
    e = e' := by
  have hsome := (entryDefinition_iff h.definition).mpr h
  rw [(entryDefinition_iff h.definition).mpr h'] at hsome
  exact (Option.some.inj hsome).symm

theorem firstEntry_iff {t : Tree} {e : EntryPoint} :
    t.firstEntry = some e ↔ ∃ p, t.StartsFirst p e := by
  refine ⟨firstEntry_first t, fun ⟨p, hstarts, hfirst⟩ => ?_⟩
  cases hentry : t.firstEntry with
  | none => exact absurd hstarts (firstEntry_eq_none t hentry p e)
  | some e' =>
    obtain ⟨p', hstarts', hfirst'⟩ := firstEntry_first t hentry
    obtain rfl : p = p' := (hfirst p' e' hstarts').antisymm (hfirst' p e hstarts)
    obtain ⟨u, hu, h⟩ := hstarts.defines
    obtain ⟨u', hu', h'⟩ := hstarts'.defines
    cases hu.symm.trans hu'
    rw [h.unique h']

end Tree

theorem entryOf_eq {parse : Language → String → Except Fault Tree} {language : Language}
    {source : String} {t : Tree} (hparse : parse language source = .ok t) :
    entryOf parse language source =
      match t.firstEntry with
      | some e => .ok e
      | none => .error .noEntryPoint := by
  simp only [entryOf, hparse, bind, Except.bind]
  cases t.firstEntry <;> rfl

/-- For every tree a parser may return, the entry point is that of the first definition of `main` at
an open place, and only if there is none is there no entry point. -/
theorem entryOf_finds_first {parse : Language → String → Except Fault Tree} {language : Language}
    {source : String} {t : Tree} (hparse : parse language source = .ok t) :
    (∀ e, entryOf parse language source = .ok e ↔ ∃ p, t.StartsFirst p e) ∧
    (∀ f, entryOf parse language source = .error f ↔
      f = .noEntryPoint ∧ ∀ p e, ¬ t.StartsAt p e) ∧
    Fault.noEntryPoint.kind = .entryPoint := by
  rw [entryOf_eq hparse]
  refine ⟨fun e => ?_, fun f => ?_, rfl⟩
  · refine Iff.trans ?_ Tree.firstEntry_iff
    cases t.firstEntry <;> simp
  · have hnone : t.firstEntry = none ↔ ∀ p e, ¬ t.StartsAt p e := by
      refine ⟨Tree.firstEntry_eq_none t, fun h => Option.eq_none_iff_forall_ne_some.mpr ?_⟩
      intro e he
      obtain ⟨p, hstarts, -⟩ := Tree.firstEntry_first t he
      exact h p e hstarts
    rw [← hnone]
    cases t.firstEntry <;> simp [eq_comm]

/-- Prototypes, members, qualified names and scopes stand before the definition that is found. -/
def sampleUnit : String :=
  "int main();\nnamespace n\x7bint main()\x7b\x7d\x7d\nstruct S\x7bint main()\x7b\x7d\x7d;\n" ++
  "int S::main()\x7b\x7d\nint *f()\x7b\x7d\nint *main(int c)\n\x7b\n\x7d\nint main()\x7b\x7d\n"

theorem entryOf_finds_sample :
    parseUnit .cpp sampleUnit = .ok (sourceUnit .cpp sampleUnit) ∧
      ∃ p, (sourceUnit .cpp sampleUnit).StartsFirst p ⟨7, 8, [some "c"]⟩ :=
  have hparse : parseUnit .cpp sampleUnit = .ok (sourceUnit .cpp sampleUnit) := rfl
  have hentry : (sourceUnit .cpp sampleUnit).firstEntry = some ⟨7, 8, [some "c"]⟩ := by
    decide +kernel
  have hfound : findEntry .cpp sampleUnit = .ok ⟨7, 8, [some "c"]⟩ := by
    rw [findEntry, entryOf_eq hparse, hentry]
  ⟨hparse, ((entryOf_finds_first hparse).1 _).mp hfound⟩

end Whittle.Grammar
