import Whittle.Proofs.Grammar.Search
import Whittle.Proofs.Insertion.Planting

/-!
# Names that parameters declare

`Tree.Names d i`: the declarator `d` declares the name that stands at `i`. The search for the name of a
parameter goes inwards by another rule, from a tree without a declarator in its field to the last of
its named children. The two agree on declarators that are `Plain`: wherever a declarator stands in no
field, as in parentheses, nothing named stands behind it, and one that declares nothing has no
identifier in it. So the parameters of an entry point are those that `main` declares, as far as they
are plain (`entryOf_parameters`), and no others are assigned to by the planted lines. An attribute or
a comment behind the name, the size of an array without a name, and parameters that are declared
behind their names mislead the search (`entryOf_misled`).
-/

namespace Whittle.Grammar

namespace Kind

/-- Declarators that have the next one in a field. -/
def carries : Kind → Bool
  | pointerDeclarator => true
  | functionDeclarator => true
  | arrayDeclarator => true
  | _ => false

/-- Declarators that have the next one, but in no field. -/
def groups : Kind → Bool
  | referenceDeclarator => true
  | parenthesizedDeclarator => true
  | attributedDeclarator => true
  | variadicDeclarator => true
  | _ => false

/-- Declarators without a name. -/
def isAbstract : Kind → Bool
  | abstractPointerDeclarator => true
  | abstractReferenceDeclarator => true
  | abstractFunctionDeclarator => true
  | abstractArrayDeclarator => true
  | abstractParenthesizedDeclarator => true
  | _ => false

/-- Declarators around a name, and the name itself. -/
def isDeclarator (k : Kind) : Bool :=
  k.carries || k.groups || k = identifier || k = qualifiedIdentifier

theorem not_isDeclarator_of_isAbstract {k : Kind} (h : k.isAbstract = true) :
    k.isDeclarator = false := by
  cases k <;> first | rfl | cases h

theorem groups_of_carries {k : Kind} (h : k.carries = true) : k.groups = false := by
  cases k <;> first | rfl | cases h

end Kind

namespace Tree

/-- A tree, or one below it. -/
inductive Within : Tree → Tree → Prop
  | self (t : Tree) : Within t t
  | under {t c u : Tree} (hc : c ∈ t.children) (h : Within c u) : Within t u

mutual

/-- Whether a test holds of a tree and of all below it. -/
def all (p : Tree → Bool) : Tree → Bool
  | node kind named field text startRow endRow children =>
    p (node kind named field text startRow endRow children) && allIn p children

def allIn (p : Tree → Bool) : List Tree → Bool
  | [] => true
  | t :: ts => t.all p && allIn p ts

end

/-- What stands at the end of a declarator is the name that it declares. A pointer to a member counts
as qualified, and what it declares as a name of a type. -/
inductive Names : Tree → Tree → Prop
  | name {i : Tree} (hi : i.kind = .identifier) : Names i i
  | carried {d c i : Tree} (hd : d.kind.carries = true) (hc : d.child? .declarator = some c)
      (h : Names c i) : Names d i
  | grouped {d c i : Tree} (hd : d.kind.groups = true) (hc : c ∈ d.namedChildren)
      (hk : c.kind.isDeclarator = true) (h : Names c i) : Names d i
  | member {d c i : Tree} (hd : d.kind = .qualifiedIdentifier) (hc : c ∈ d.namedChildren)
      (hm : c.kind = .memberPointer) (hi : i.kind = .typeIdentifier) (h : Within c i) : Names d i

/-- A parameter declares a name. -/
def Declares (p : Tree) (x : String) : Prop :=
  ∃ d i, p.child? .declarator = some d ∧ Names d i ∧ i.text = x

/-- A declarator on which the search goes the way to the name. -/
inductive Plain : Tree → Prop
  | name {i : Tree} (hi : i.kind = .identifier) : Plain i
  | carried {d c : Tree} (hd : d.kind.carries = true) (hc : d.child? .declarator = some c)
      (h : Plain c) : Plain d
  | grouped {d c : Tree} (hd : d.kind.groups = true) (hfield : d.child? .declarator = none)
      (hlast : d.namedChildren.getLast? = some c)
      (hone : ∀ b ∈ d.namedChildren, b.kind.isDeclarator = true → b = c)
      (hk : c.kind.isDeclarator = true) (h : Plain c) : Plain d
  | hollow {d c : Tree} (hd : d.kind.isAbstract = true) (hc : d.child? .declarator = some c)
      (hk : c.kind.isAbstract = true) (h : Plain c) : Plain d
  | bare {d : Tree} (h : ∀ i, Within d i → i.kind ≠ .identifier ∧ i.kind ≠ .memberPointer) : Plain d

/-- A parameter with a plain declarator, or with none. -/
def PlainParameter (p : Tree) : Prop := ∀ d, p.child? .declarator = some d → Plain d

/-! ## Ways inwards and names -/

variable {k : Kind} {t u d i p : Tree}

theorem Within.trans {v : Tree} (h : Within t u) (h' : Within u v) : Within t v := by
  induction h with
  | self => exact h'
  | under hc _ ih => exact .under hc (ih h')

theorem allIn_iff {q : Tree → Bool} {ts : List Tree} :
    allIn q ts = true ↔ ∀ t ∈ ts, t.all q = true := by
  induction ts with
  | nil => simp [allIn]
  | cons t ts ih => simp [allIn, ih]

theorem of_all {q : Tree → Bool} (h : t.all q = true) (hu : Within t u) : q u = true := by
  induction hu with
  | self t =>
    cases t with
    | node => exact (Bool.and_eq_true _ _ ▸ h : _ ∧ _).1
  | @under t c u hc _ ih =>
    cases t with
    | node => exact ih (allIn_iff.mp (Bool.and_eq_true _ _ ▸ h : _ ∧ _).2 c hc)

theorem within_of_child? {f : Field} (h : t.child? f = some u) : Within t u :=
  .under (List.mem_of_find?_eq_some h) (.self u)

theorem within_of_namedChildren (h : u ∈ t.namedChildren) : Within t u :=
  .under (List.mem_filter.mp h).1 (.self u)

theorem Meets.within (h : Meets k t u) : Within t u ∧ u.kind = k := by
  induction h with
  | here hk => exact ⟨.self _, hk⟩
  | further _ hi _ ih => exact ⟨.under (inner?_mem hi) ih.1, ih.2⟩

theorem Names.within (h : Names d i) :
    Within d i ∧ (i.kind = .identifier ∨ ∃ m, Within d m ∧ m.kind = .memberPointer) := by
  induction h with
  | name hi => exact ⟨.self _, .inl hi⟩
  | carried _ hc _ ih =>
    have hbelow := within_of_child? hc
    exact ⟨hbelow.trans ih.1, ih.2.imp_right fun ⟨m, hm, hk⟩ => ⟨m, hbelow.trans hm, hk⟩⟩
  | grouped _ hc _ _ ih =>
    have hbelow := within_of_namedChildren hc
    exact ⟨hbelow.trans ih.1, ih.2.imp_right fun ⟨m, hm, hk⟩ => ⟨m, hbelow.trans hm, hk⟩⟩
  | member _ hc hm _ h =>
    have hbelow := within_of_namedChildren hc
    exact ⟨hbelow.trans h, .inr ⟨_, hbelow, hm⟩⟩

theorem not_meets_of_bare (h : ∀ i, Within d i → i.kind ≠ .identifier ∧ i.kind ≠ .memberPointer) :
    ¬ Meets .identifier d i :=
  fun hm => (h i hm.within.1).1 hm.within.2

theorem not_names_of_bare (h : ∀ i, Within d i → i.kind ≠ .identifier ∧ i.kind ≠ .memberPointer) :
    ¬ Names d i := by
  intro hn
  rcases hn.within.2 with hi | ⟨m, hm, hk⟩
  · exact (h i hn.within.1).1 hi
  · exact (h m hm).2 hk

theorem Names.isDeclarator (h : Names d i) : d.kind.isDeclarator = true := by
  cases h with
  | name hi => rw [hi]; rfl
  | carried hd _ _ => simp [Kind.isDeclarator, hd]
  | grouped hd _ _ _ => simp [Kind.isDeclarator, hd]
  | member hd _ _ _ _ => rw [hd]; rfl

theorem not_names_of_isAbstract (h : d.kind.isAbstract = true) : ¬ Names d i := by
  intro hn
  have hd := hn.isDeclarator
  rw [Kind.not_isDeclarator_of_isAbstract h] at hd
  cases hd

theorem not_declares_of_isAbstract (hd : p.child? .declarator = some d)
    (h : d.kind.isAbstract = true) (x : String) : ¬ p.Declares x := by
  rintro ⟨d', i, hd', hi, -⟩
  cases hd.symm.trans hd'
  exact not_names_of_isAbstract h hi

theorem names_of_identifier (hd : d.kind = .identifier) : Names d i ↔ i = d := by
  constructor
  · intro h
    cases h with
    | name _ => rfl
    | carried hk _ _ => rw [hd] at hk; cases hk
    | grouped hk _ _ _ => rw [hd] at hk; cases hk
    | member hk _ _ _ _ => rw [hd] at hk; cases hk
  · rintro rfl
    exact .name hd

theorem names_of_carries (hd : d.kind.carries = true) {c : Tree}
    (hc : d.child? .declarator = some c) : Names d i ↔ Names c i := by
  constructor
  · intro h
    cases h with
    | name hk => rw [hk] at hd; cases hd
    | carried _ hc' h =>
      cases hc.symm.trans hc'
      exact h
    | grouped hk _ _ _ => rw [Kind.groups_of_carries hd] at hk; cases hk
    | member hk _ _ _ _ => rw [hk] at hd; cases hd
  · exact .carried hd hc

theorem names_of_groups (hd : d.kind.groups = true) {c : Tree} (hc : c ∈ d.namedChildren)
    (hone : ∀ b ∈ d.namedChildren, b.kind.isDeclarator = true → b = c)
    (hk : c.kind.isDeclarator = true) : Names d i ↔ Names c i := by
  constructor
  · intro h
    cases h with
    | name hi => rw [hi] at hd; cases hd
    | carried hk _ _ => rw [Kind.groups_of_carries hk] at hd; cases hd
    | grouped _ hb hk' h => exact hone _ hb hk' ▸ h
    | member hq _ _ _ _ => rw [hq] at hd; cases hd
  · exact .grouped hd hc hk

/-- On a plain declarator the search finds what it names. -/
theorem Plain.meets_iff (h : Plain d) : Meets .identifier d i ↔ Names d i := by
  have hstep {d c : Tree} (hne : d.kind ≠ .identifier) (hi : d.inner? = some c) :
      Meets .identifier d i ↔ Meets .identifier c i := by
    rw [← innermost_iff, ← innermost_iff, innermost_eq, if_neg hne, hi, Option.bind_some]
  induction h with
  | name hi =>
    rw [names_of_identifier hi, ← innermost_iff, innermost_eq, if_pos hi, Option.some.injEq, eq_comm]
  | @carried d c hd hc _ ih =>
    have hne : d.kind ≠ .identifier := by intro e; rw [e] at hd; cases hd
    rw [names_of_carries hd hc, hstep hne (by rw [inner?, hc]; rfl)]
    exact ih
  | @grouped d c hd hfield hlast hone hk _ ih =>
    have hne : d.kind ≠ .identifier := by intro e; rw [e] at hd; cases hd
    rw [names_of_groups hd (List.mem_of_getLast? hlast) hone hk,
      hstep hne (by rw [inner?, hfield, hlast]; rfl)]
    exact ih
  | @hollow d c hd hc hk _ ih =>
    have hne : d.kind ≠ .identifier := by intro e; rw [e] at hd; cases hd
    rw [hstep hne (by rw [inner?, hc]; rfl)]
    exact ih.trans ⟨fun hn => absurd hn (not_names_of_isAbstract hk),
      fun hn => absurd hn (not_names_of_isAbstract hd)⟩
  | bare h => exact ⟨fun hm => absurd hm (not_meets_of_bare h),
      fun hn => absurd hn (not_names_of_bare h)⟩

theorem parameterName_iff (hp : PlainParameter p) {x : String} :
    p.parameterName = some x ↔ p.Declares x := by
  constructor
  · intro h
    obtain ⟨d, hd, h⟩ := Option.bind_eq_some_iff.mp h
    obtain ⟨i, hi, h⟩ := Option.bind_eq_some_iff.mp h
    cases h
    exact ⟨d, i, hd, (hp d hd).meets_iff.mp (innermost_iff.mp hi), rfl⟩
  · rintro ⟨d, i, hd, hi, rfl⟩
    have hfound := innermost_iff.mpr ((hp d hd).meets_iff.mpr hi)
    rw [parameterName, hd]
    simp [hfound]

/-! ## The declarator of `main` -/

/-- The definition of the function with which a program starts. -/
def MainDefinition (t u : Tree) : Prop := ∃ q e, t.StartsFirst q e ∧ t.at? q = some u

/-- The declarator of that function. -/
def MainDeclarator (t f : Tree) : Prop :=
  ∃ u d, t.MainDefinition u ∧ u.child? .declarator = some d ∧ Meets .functionDeclarator d f

theorem MainDefinition.unique {u v : Tree} (hu : t.MainDefinition u) (hv : t.MainDefinition v) :
    u = v := by
  obtain ⟨q, e, hstarts, hu⟩ := hu
  obtain ⟨q', e', hstarts', hv⟩ := hv
  obtain rfl : q = q' := (hstarts.2 q' e' hstarts'.1).antisymm (hstarts'.2 q e hstarts.1)
  exact Option.some.inj (hu.symm.trans hv)

theorem MainDeclarator.unique {f g : Tree} (hf : t.MainDeclarator f) (hg : t.MainDeclarator g) :
    f = g := by
  obtain ⟨u, d, hu, hd, hf⟩ := hf
  obtain ⟨v, d', hv, hd', hg⟩ := hg
  cases hu.unique hv
  cases hd.symm.trans hd'
  exact Option.some.inj ((innermost_iff.mpr hf).symm.trans (innermost_iff.mpr hg))

theorem mainDefinition_of_firstEntry {e : EntryPoint} (h : t.firstEntry = some e) :
    ∃ u, t.MainDefinition u ∧ u.Defines e := by
  obtain ⟨q, hstarts⟩ := firstEntry_first t h
  obtain ⟨u, hu, hdefines⟩ := hstarts.1.defines
  exact ⟨u, ⟨q, e, hstarts, hu⟩, hdefines⟩

theorem mainDeclarator_of_firstEntry {e : EntryPoint} (h : t.firstEntry = some e) :
    ∃ f, t.MainDeclarator f ∧ e.parameters = ((f.child? .parameters).map parameterNames).getD [] := by
  obtain ⟨u, hu, hdefines⟩ := mainDefinition_of_firstEntry h
  obtain ⟨d, f, -, hd, hf, -, -, -, hparameters⟩ := hdefines.function
  exact ⟨f, ⟨u, d, hu, hd, hf⟩, hparameters⟩

/-- The definition at the head of a program, if it is one of `main`. -/
def head? (t : Tree) : Option Tree :=
  t.children[0]?.filter fun u => u.named ∧ u.kind = .functionDefinition ∧ u.entryDefinition.isSome

theorem mainDefinition_of_head? (hkind : t.kind = .sourceUnit) (h : t.head? = some u) :
    t.MainDefinition u := by
  obtain ⟨hhead, hu⟩ := Option.filter_eq_some_iff.mp h
  obtain ⟨hname, hdefinition, he⟩ := of_decide_eq_true hu
  obtain ⟨e, he⟩ := Option.isSome_iff_exists.mp he
  have hnot : t.kind ≠ .functionDefinition := by rw [hkind]; decide
  have hstarts : t.StartsAt [0] e := startsAt_cons.mpr ⟨⟨hnot, by rw [hkind]; rfl⟩, u, hhead, hname,
    startsAt_nil.mpr ((entryDefinition_iff hdefinition).mp he)⟩
  refine ⟨[0], e, ⟨hstarts, fun q e' hq => ?_⟩, by rw [at?, hhead]; rfl⟩
  cases q with
  | nil => exact absurd (startsAt_nil.mp hq).definition hnot
  | cons j q =>
    rcases Nat.eq_zero_or_pos j with rfl | hj
    · exact .inr ⟨rfl, trivial⟩
    · exact .inl hj

/-- The list of its parameters. -/
def headList? (t : Tree) : Option Tree :=
  (t.head?.bind (·.child? .declarator)).bind fun d =>
    (d.innermost .functionDeclarator).bind (·.child? .parameters)

theorem mainDeclarator_of_headList? {list : Tree} (hkind : t.kind = .sourceUnit)
    (hlist : t.headList? = some list) :
    ∃ f, t.MainDeclarator f ∧ f.child? .parameters = some list := by
  obtain ⟨d, hd, hlist⟩ := Option.bind_eq_some_iff.mp hlist
  obtain ⟨f, hf, hlist⟩ := Option.bind_eq_some_iff.mp hlist
  obtain ⟨u, hhead, hd⟩ := Option.bind_eq_some_iff.mp hd
  exact ⟨f, ⟨u, d, mainDefinition_of_head? hkind hhead, hd, innermost_iff.mp hf⟩, hlist⟩

/-! ## The parameters of `main` -/

/-- The parameters of a list, in order. In C a list may hold their names only. -/
def declaredParameters (list : Tree) : List Tree :=
  list.namedChildren.filter fun c => c.kind.isParameter || c.kind = .identifier

/-- Whether a list says that there is no parameter. -/
def SaysVoid (list : Tree) : Prop :=
  ∃ p u, list.declaredParameters = [p] ∧ p.child? .declarator = none ∧ p.child? .type = some u ∧
    u.text = "void"

theorem isVoidParameter_iff :
    p.isVoidParameter = true ↔
      p.child? .declarator = none ∧ ∃ u, p.child? .type = some u ∧ u.text = "void" := by
  simp [isVoidParameter, Option.any_eq_true]

/-- Where the names do not stand alone, the parameters are the declarations. -/
theorem declaredParameters_eq {list : Tree} (h : ∀ c ∈ list.namedChildren, c.kind ≠ .identifier) :
    list.declaredParameters = list.namedChildren.filter fun c => c.kind.isParameter := by
  refine List.filter_congr fun c hc => ?_
  simp [h c hc]

/-- Each parameter and what is answered for it, in order; a plain parameter gets the name that it
declares, if it declares one. -/
def Answers (ps : List Tree) (names : List (Option String)) : Prop :=
  List.Forall₂ (fun p n => PlainParameter p → ∀ x, n = some x ↔ p.Declares x) ps names

theorem answers_map (ps : List Tree) : Answers ps (ps.map parameterName) := by
  rw [Answers, List.forall₂_map_right_iff, List.forall₂_same]
  exact fun p _ hp x => parameterName_iff hp

theorem parameterNames_void {list : Tree} (h : ∀ c ∈ list.namedChildren, c.kind ≠ .identifier)
    (hvoid : list.SaysVoid) : list.parameterNames = [] := by
  obtain ⟨p, u, hp, hd, hu, htext⟩ := hvoid
  rw [declaredParameters_eq h] at hp
  rw [parameterNames, hp]
  exact if_pos (isVoidParameter_iff.mpr ⟨hd, u, hu, htext⟩)

theorem parameterNames_eq {list : Tree} (h : ∀ c ∈ list.namedChildren, c.kind ≠ .identifier)
    (hvoid : ¬ list.SaysVoid) :
    list.parameterNames = list.declaredParameters.map parameterName := by
  rw [declaredParameters_eq h, parameterNames]
  split
  · rename_i p hp
    have hother : ¬ p.isVoidParameter = true := by
      intro hv
      obtain ⟨hd, u, hu, htext⟩ := isVoidParameter_iff.mp hv
      exact hvoid ⟨p, u, by rw [declaredParameters_eq h, hp], hd, hu, htext⟩
    rw [if_neg hother, hp]
    rfl
  · rfl

theorem within_of_at? {q : List Nat} (h : t.at? q = some u) : Within t u := by
  induction q generalizing t with
  | nil => cases h; exact .self _
  | cons i q ih =>
    obtain ⟨c, hc, h⟩ := Option.bind_eq_some_iff.mp h
    exact .under (List.mem_of_getElem? hc) (ih h)

theorem within_of_mem_parameterNames {list : Tree} {n : String} (h : some n ∈ list.parameterNames) :
    ∃ i, Within list i ∧ i.kind = .identifier ∧ i.text = n := by
  have hname {p : Tree} (hp : p ∈ list.namedChildren.filter fun p => p.kind.isParameter)
      (h : p.parameterName = some n) : ∃ i, Within list i ∧ i.kind = .identifier ∧ i.text = n := by
    obtain ⟨d, hd, h⟩ := Option.bind_eq_some_iff.mp h
    obtain ⟨i, hi, h⟩ := Option.bind_eq_some_iff.mp h
    obtain ⟨hwithin, hkind⟩ := (innermost_iff.mp hi).within
    have hlist := within_of_namedChildren (List.mem_filter.mp hp).1
    exact ⟨i, (hlist.trans (within_of_child? hd)).trans hwithin, hkind, Option.some.inj h⟩
  unfold parameterNames at h
  split at h
  · rename_i p hp
    split at h
    · cases h
    · exact hname (hp ▸ List.mem_cons_self) (List.mem_singleton.mp h).symm
  · obtain ⟨p, hp, h⟩ := List.mem_map.mp h
    exact hname hp h

/-- Every name of an entry point is that of an identifier. -/
theorem within_of_mem_parameters {e : EntryPoint} (h : t.firstEntry = some e) {n : String}
    (hn : some n ∈ e.parameters) : ∃ i, Within t i ∧ i.kind = .identifier ∧ i.text = n := by
  obtain ⟨f, ⟨u, d, ⟨q, _, -, hu⟩, hd, hf⟩, hparameters⟩ := mainDeclarator_of_firstEntry h
  have hwithin := ((within_of_at? hu).trans (within_of_child? hd)).trans hf.within.1
  cases hlist : f.child? .parameters with
  | none => rw [hparameters, hlist] at hn; cases hn
  | some list =>
    rw [hparameters, hlist] at hn
    obtain ⟨i, hi, hname⟩ := within_of_mem_parameterNames hn
    exact ⟨i, (hwithin.trans (within_of_child? hlist)).trans hi, hname⟩

end Tree

theorem EntryPoint.parameters_of_countAndValues {e : EntryPoint} {count values : String}
    (h : e.countAndValues = some (count, values)) :
    ∃ rest, e.parameters = some count :: some values :: rest := by
  unfold countAndValues at h
  split at h
  · rename_i c v rest hp
    cases h
    exact ⟨rest, hp⟩
  · cases h

open Insertion Text

/-- The parameters of an entry point are those of the first definition of `main`, in order, and there
is none where its list says so. A plain parameter gets the name that it declares, and none if it
declares none, and the planted lines assign to the first two. -/
theorem entryOf_parameters {parse : Language → String → Except Fault Tree} {language : Language}
    {source : String} {t : Tree} {e : EntryPoint} (hparse : parse language source = .ok t)
    (h : entryOf parse language source = .ok e) :
    ∃ f, (∀ f', t.MainDeclarator f' ↔ f' = f) ∧
      (f.child? .parameters = none → e.parameters = []) ∧
      ∀ list, f.child? .parameters = some list →
        (∀ c ∈ list.namedChildren, c.kind ≠ .identifier) →
        (list.SaysVoid → e.parameters = []) ∧
        (¬ list.SaysVoid → Tree.Answers list.declaredParameters e.parameters) ∧
        ∀ arguments text p, plantWith parse language source arguments = .ok (text, p) →
          ∃ a b rest count values, list.declaredParameters = a :: b :: rest ∧
            (a.PlainParameter → a.Declares count) ∧ (b.PlainParameter → b.Declares values) ∧
            text = joinLines (insertLines e.openLine (plantedLines (words arguments) count values)
              (lines source)) := by
  obtain ⟨t', ht', hentry⟩ := entryOf_eq_ok h
  cases hparse.symm.trans ht'
  obtain ⟨f, hf, hparameters⟩ := Tree.mainDeclarator_of_firstEntry hentry
  refine ⟨f, fun f' => ⟨fun hf' => hf'.unique hf, fun e => e ▸ hf⟩, fun hnone => ?_,
    fun list hlist hnames => ?_⟩
  · rw [hparameters, hnone]
    rfl
  · rw [hlist] at hparameters
    have hvoid (hv : list.SaysVoid) : e.parameters = [] :=
      hparameters.trans (Tree.parameterNames_void hnames hv)
    have hanswers (hv : ¬ list.SaysVoid) : Tree.Answers list.declaredParameters e.parameters := by
      rw [hparameters, Option.map_some, Option.getD_some, Tree.parameterNames_eq hnames hv]
      exact Tree.answers_map _
    refine ⟨hvoid, hanswers, fun arguments text p hplant => ?_⟩
    obtain ⟨e', count, values, hfound, hpair, -, -, htext⟩ := plantWith_ok hplant
    cases h.symm.trans hfound
    obtain ⟨more, hmore⟩ := EntryPoint.parameters_of_countAndValues hpair
    have hsome : ¬ list.SaysVoid := fun hv => by
      rw [hvoid hv] at hmore
      cases hmore
    have hall := hanswers hsome
    rw [Tree.Answers, hmore, List.forall₂_cons_right_iff] at hall
    obtain ⟨a, as, ha, hall, hlist⟩ := hall
    obtain ⟨b, rest, hb, -, rfl⟩ := List.forall₂_cons_right_iff.mp hall
    exact ⟨a, b, rest, count, values, hlist, fun hp => (ha hp count).mp rfl,
      fun hp => (hb hp values).mp rfl, htext⟩

/-- The tree of `int main(int c, char **v, char *[8])` with a body on two lines. -/
def threeParameters : Tree :=
  let leaf (k : Kind) (text : String) : Tree := .node k true none text 0 0 []
  let parameter (type : String) (d : Tree) : Tree := .branch .parameterDeclaration 0 0
    [(leaf .primitiveType type).inField .type, d.inField .declarator]
  let pointer (k : Kind) (d : Tree) : Tree := .branch k 0 0 [d.inField .declarator]
  let list : Tree := .branch .parameterList 0 0
    [parameter "int" (leaf .identifier "c"),
      parameter "char" (pointer .pointerDeclarator (pointer .pointerDeclarator
        (leaf .identifier "v"))),
      parameter "char" (pointer .abstractPointerDeclarator (.branch .abstractArrayDeclarator 0 0
        [(leaf .literal "8").inField .size]))]
  .branch .sourceUnit 0 1 [.branch .functionDefinition 0 1
    [(leaf .primitiveType "int").inField .type,
      (Tree.branch .functionDeclarator 0 0 [(leaf .identifier "main").inField .declarator,
        list.inField .parameters]).inField .declarator,
      (Tree.branch .compoundStatement 0 1 []).inField .body]]

theorem entryOf_parameters_of_three :
    entryOf (fun _ _ => .ok threeParameters) .c "int main(int c, char **v, char *[8])\x7b\n\x7d\n" =
        .ok ⟨1, 2, [some "c", some "v", none]⟩ ∧
      ∃ f list a b c, threeParameters.MainDeclarator f ∧ f.child? .parameters = some list ∧
        list.declaredParameters = [a, b, c] ∧ a.Declares "c" ∧ b.Declares "v" ∧
        ∀ x, ¬ c.Declares x := by
  have hfound : entryOf (fun _ _ => .ok threeParameters) .c
      "int main(int c, char **v, char *[8])\x7b\n\x7d\n" =
        .ok ⟨1, 2, [some "c", some "v", none]⟩ := by decide +kernel
  obtain ⟨f, hf, -, hlist⟩ := entryOf_parameters rfl hfound
  obtain ⟨g, hg, hparameters⟩ := Tree.mainDeclarator_of_headList? (t := threeParameters) rfl rfl
  obtain rfl := (hf g).mp hg
  obtain ⟨-, hanswers, -⟩ := hlist _ hparameters (by decide)
  obtain ⟨ha, hall⟩ := List.forall₂_cons.mp (hanswers fun ⟨_, _, h, _⟩ => nomatch h)
  obtain ⟨hb, hall⟩ := List.forall₂_cons.mp hall
  obtain ⟨hc, -⟩ := List.forall₂_cons.mp hall
  refine ⟨hfound, g, _, _, _, _, hg, hparameters, rfl, (ha ?_ "c").mp rfl, (hb ?_ "v").mp rfl,
    fun x hx => nomatch (hc ?_ x).mpr hx⟩
  · rintro d ⟨⟩
    exact .name rfl
  · rintro d ⟨⟩
    exact .carried rfl rfl (.carried rfl rfl (.name rfl))
  · rintro d ⟨⟩
    refine .hollow rfl rfl rfl (.bare fun i hi => ?_)
    have hnone := Tree.of_all (q := fun i => i.kind ≠ .identifier && i.kind ≠ .memberPointer) rfl hi
    simpa using hnone

def sizedByName : String := "int main(int argc, char *[argc]) \x7b\n\x7d\n"

def markedName : String := "int main(int argc [[maybe_unused]], char **argv) \x7b\n\x7d\n"

def namesAlone : String := "int main(argc, argv) int argc; char **argv; \x7b\n\x7d\n"

theorem sizedByName_parameters :
    ∃ f list a b, (sourceUnit .c sizedByName).MainDeclarator f ∧ f.child? .parameters = some list ∧
      list.declaredParameters = [a, b] ∧ ∀ x, ¬ b.Declares x := by
  have hkinds : ((sourceUnit .c sizedByName).headList?.map fun list =>
      list.declaredParameters.map fun p => (p.child? .declarator).map Tree.kind) =
      some [some .identifier, some .abstractPointerDeclarator] := by decide +kernel
  obtain ⟨list, hlist, hkinds⟩ := Option.map_eq_some_iff.mp hkinds
  obtain ⟨f, hf, hparameters⟩ := Tree.mainDeclarator_of_headList? rfl hlist
  obtain ⟨a, rest, ha, -, hkinds⟩ := List.map_eq_cons_iff.mp hkinds
  obtain ⟨b, rest, rfl, hb, hkinds⟩ := List.map_eq_cons_iff.mp hkinds
  obtain rfl := List.map_eq_nil_iff.mp hkinds
  obtain ⟨d, hd, hk⟩ := Option.map_eq_some_iff.mp hb
  exact ⟨f, list, a, b, hf, hparameters, ha,
    Tree.not_declares_of_isAbstract hd (by rw [hk]; rfl)⟩

theorem markedName_parameters :
    ∃ f list a b, (sourceUnit .cpp markedName).MainDeclarator f ∧ f.child? .parameters = some list ∧
      list.declaredParameters = [a, b] ∧ a.Declares "argc" := by
  have hshape : ((sourceUnit .cpp markedName).headList?.bind fun list =>
      list.declaredParameters[0]?.bind fun p => (p.child? .declarator).bind fun d =>
        d.namedChildren[0]?.map fun c =>
          (d.kind, c.kind, c.text, list.declaredParameters.length)) =
      some (.attributedDeclarator, .identifier, "argc", 2) := by decide +kernel
  obtain ⟨list, hlist, hshape⟩ := Option.bind_eq_some_iff.mp hshape
  obtain ⟨f, hf, hparameters⟩ := Tree.mainDeclarator_of_headList? rfl hlist
  obtain ⟨a, ha, hshape⟩ := Option.bind_eq_some_iff.mp hshape
  obtain ⟨d, hd, hshape⟩ := Option.bind_eq_some_iff.mp hshape
  obtain ⟨c, hc, hshape⟩ := Option.map_eq_some_iff.mp hshape
  simp only [Prod.mk.injEq] at hshape
  obtain ⟨hkind, hname, htext, hlength⟩ := hshape
  obtain ⟨a', b, hboth⟩ := List.length_eq_two.mp hlength
  rw [hboth] at ha
  cases ha
  refine ⟨f, list, a, b, hf, hparameters, hboth, d, c, hd, ?_, htext⟩
  exact .grouped (by rw [hkind]; rfl) (List.mem_of_getElem? hc) (by rw [hname]; rfl) (.name hname)

theorem namesAlone_parameters :
    ∃ f list, (sourceUnit .c namesAlone).MainDeclarator f ∧ f.child? .parameters = some list ∧
      list.declaredParameters.map Tree.text = ["argc", "argv"] := by
  have hnames : ((sourceUnit .c namesAlone).headList?.map fun list =>
      list.declaredParameters.map Tree.text) = some ["argc", "argv"] := by decide +kernel
  obtain ⟨list, hlist, hnames⟩ := Option.map_eq_some_iff.mp hnames
  obtain ⟨f, hf, hparameters⟩ := Tree.mainDeclarator_of_headList? rfl hlist
  exact ⟨f, list, hf, hparameters, hnames⟩

/-- The size of an array is taken for the name of the second parameter, and assigned to; an attribute
is taken for the name of the first; and parameters that are declared behind their names are none. -/
theorem entryOf_misled :
    (findEntry .c sizedByName = .ok ⟨1, 2, [some "argc", some "argc"]⟩ ∧
      (∃ f list a b, (sourceUnit .c sizedByName).MainDeclarator f ∧
        f.child? .parameters = some list ∧ list.declaredParameters = [a, b] ∧
        ∀ x, ¬ b.Declares x) ∧
      ∃ text p, plant .c sizedByName "" = .ok (text, p) ∧
        lineAt text 3 = some ("argc = 1; argc = " ++ Artifacts.argumentArray ++ ";")) ∧
    (findEntry .cpp markedName = .ok ⟨1, 2, [some "maybe_unused", some "argv"]⟩ ∧
      ∃ f list a b, (sourceUnit .cpp markedName).MainDeclarator f ∧
        f.child? .parameters = some list ∧ list.declaredParameters = [a, b] ∧ a.Declares "argc") ∧
    (findEntry .c namesAlone = .ok ⟨1, 2, []⟩ ∧
      ∃ f list, (sourceUnit .c namesAlone).MainDeclarator f ∧
        f.child? .parameters = some list ∧
        list.declaredParameters.map Tree.text = ["argc", "argv"]) := by
  have hfind {l : Language} {s : String} {e : EntryPoint}
      (h : (sourceUnit l s).firstEntry = some e) : findEntry l s = .ok e := by
    rw [findEntry, entryOf_eq rfl, h]
  refine ⟨⟨hfind (by decide +kernel), sizedByName_parameters, ?_⟩,
    ⟨hfind (by decide +kernel), markedName_parameters⟩,
    hfind (by decide +kernel), namesAlone_parameters⟩
  have hplant : (plant .c sizedByName "").toOption.map (fun r => lineAt r.1 3) =
      some (some ("argc = 1; argc = " ++ Artifacts.argumentArray ++ ";")) := by decide +kernel
  obtain ⟨⟨text, p⟩, hr, hline⟩ := Option.map_eq_some_iff.mp hplant
  cases hp : plant .c sizedByName "" with
  | error f => rw [hp] at hr; cases hr
  | ok r =>
    rw [hp] at hr
    cases hr
    exact ⟨text, p, rfl, hline⟩

end Whittle.Grammar
