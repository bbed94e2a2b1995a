import Mathlib.Data.List.Infix
import Whittle.Proofs.Disk.Places

/-!
# What a walk comes by

A walk goes through directories, back up, and along links. A place is `Reached` if there are
directories above it. Where names lead if the directories are there is up to the links alone
(`placeOf`), and up to the names alone if there are no links (`lexical`).
-/

namespace Whittle.Disk

open Text

/-- No entry is a link. -/
def Linkless (d : Disk) : Prop := ∀ l target, d.get? l ≠ some (.link target)

/-- No link stands at a location or above it. -/
def Clear (d : Disk) (l : Location) : Prop :=
  ∀ P target, P <+: l → d.get? P ≠ some (.link target)

/-- No link stands at a location, above it or below it. -/
def Straight (d : Disk) (l : Location) : Prop :=
  ∀ P target, P <+: l ∨ l <+: P → d.get? P ≠ some (.link target)

/-- The second disk has the links of the first. -/
def SameLinks (d d' : Disk) : Prop :=
  ∀ P target, d'.get? P = some (.link target) ↔ d.get? P = some (.link target)

theorem Linkless.clear {d : Disk} (h : d.Linkless) (l : Location) : d.Clear l :=
  fun P target _ => h P target

theorem Linkless.straight {d : Disk} (h : d.Linkless) (l : Location) : d.Straight l :=
  fun P target _ => h P target

theorem Clear.above {d : Disk} {l P : Location} (h : d.Clear l) (hP : P <+: l) : d.Clear P :=
  fun Q target hQ => h Q target (hQ.trans hP)

theorem Straight.below {d : Disk} {l P : Location} (h : d.Straight l) (hP : l <+: P) :
    d.Straight P := by
  rintro Q target (hQ | hQ)
  · exact h Q target (List.prefix_or_prefix_of_prefix hQ hP)
  · exact h Q target (.inr (hP.trans hQ))

/-- No link stands on the way to a place below. -/
theorem Straight.clear {d : Disk} {l P : Location} (h : d.Straight l) (hP : l <+: P) : d.Clear P :=
  fun Q target hQ => h Q target (List.prefix_or_prefix_of_prefix hQ hP)

theorem Straight.self {d : Disk} {l : Location} (h : d.Straight l) : d.Clear l :=
  h.clear (List.prefix_refl l)

namespace SameLinks

variable {d d₁ d' : Disk}

theorem refl (d : Disk) : SameLinks d d := fun _ _ => Iff.rfl

theorem trans (h : SameLinks d d₁) (h₁ : SameLinks d₁ d') : SameLinks d d' :=
  fun P target => (h₁ P target).trans (h P target)

theorem linkless (h : SameLinks d d') (hd : d.Linkless) : d'.Linkless :=
  fun P target hn => hd P target ((h P target).mp hn)

theorem clear (h : SameLinks d d') {l : Location} (hd : d.Clear l) : d'.Clear l :=
  fun P target hP hn => hd P target hP ((h P target).mp hn)

theorem straight (h : SameLinks d d') {l : Location} (hd : d.Straight l) : d'.Straight l :=
  fun P target hP hn => hd P target hP ((h P target).mp hn)

end SameLinks

/-- Where names lead from a directory if none of them is a link. -/
def lexical (here : Location) : List String → Location
  | [] => here
  | name :: rest =>
    if name = "" ∨ name = "." then lexical here rest
    else if name = ".." then lexical here.dropLast rest
    else lexical (here ++ [name]) rest

/-- Names that do not go up lead on by those that are not dots. -/
theorem lexical_ahead {names : List String} (hup : ".." ∉ names) (here : Location) :
    lexical here names = here ++ names.filter fun n => n ≠ "" ∧ n ≠ "." := by
  induction names generalizing here with
  | nil => exact (List.append_nil here).symm
  | cons name rest ih =>
    simp only [List.mem_cons, not_or] at hup
    rw [lexical, if_neg (Ne.symm hup.1)]
    split
    · rename_i hdot
      rw [ih hup.2, List.filter_cons_of_neg (by simpa [Classical.or_iff_not_imp_left] using hdot)]
    · rename_i hdot
      rw [ih hup.2, List.filter_cons_of_pos (by simpa using not_or.mp hdot), List.append_assoc,
        List.singleton_append]

theorem prefix_lexical {names : List String} (hup : ".." ∉ names) (here : Location) :
    here <+: lexical here names := by
  rw [lexical_ahead hup]
  exact List.prefix_append _ _

theorem lexical_names {names : List String} (hnames : ∀ n ∈ names, IsName n) (here : Location) :
    lexical here names = here ++ names := by
  rw [lexical_ahead fun hup => (hnames _ hup).2.2.1 rfl, List.filter_eq_self.mpr]
  intro n hn
  simpa using ⟨(hnames n hn).1, (hnames n hn).2.1⟩

theorem lexical_append (here : Location) (front back : List String) :
    lexical here (front ++ back) = lexical (lexical here front) back := by
  induction front generalizing here with
  | nil => rfl
  | cons n ns ih =>
    rw [List.cons_append, lexical, lexical]
    split
    · exact ih _
    · split <;> exact ih _

theorem lexical_stepsOf (here : Location) (text : String) :
    lexical here (stepsOf text) = lexical here (namesOf text) := by
  simp only [stepsOf]
  split
  · exact lexical_append _ _ _
  · rfl

theorem get?_nil (d : Disk) : d.get? [] = some .dir := by simp [get?]

/-- A place that a walk can come to: the names are names, and above the place are directories. -/
structure Reached (d : Disk) (l : Location) : Prop where
  names : ∀ n ∈ l, IsName n ∧ n.utf8ByteSize ≤ nameLimit
  above : ∀ P, P <+: l → P ≠ l → d.get? P = some .dir

namespace Reached

variable {d : Disk} {l : Location}

theorem isName (h : Reached d l) : ∀ n ∈ l, IsName n := fun n hn => (h.names n hn).1

theorem nil : Reached d [] where
  names _ hn := nomatch hn
  above _ hP hne := absurd (List.prefix_nil.mp hP) hne

theorem of_prefix (h : Reached d l) {P : Location} (hP : P <+: l) : Reached d P where
  names n hn := h.names n (hP.subset hn)
  above Q hQ hne := by
    refine h.above Q (hQ.trans hP) ?_
    rintro rfl
    exact hne (hQ.eq_of_length_le hP.length_le)

theorem push (h : Reached d l) (hdir : d.get? l = some .dir) {n : String} (hn : IsName n)
    (hsize : n.utf8ByteSize ≤ nameLimit) : Reached d (l ++ [n]) where
  names m hm := by
    rcases List.mem_append.mp hm with hm | hm
    · exact h.names m hm
    · rw [List.mem_singleton.mp hm]
      exact ⟨hn, hsize⟩
  above P hP hne := by
    rcases List.prefix_concat_iff.mp hP with e | hP
    · exact absurd e hne
    · by_cases e : P = l
      · rw [e, hdir]
      · exact h.above P hP e

/-- Above a place that can be reached there are no links. -/
theorem clear (h : Reached d l) (hlink : ∀ target, d.get? l ≠ some (.link target)) : d.Clear l := by
  intro P target hP
  by_cases e : P = l
  · rw [e]
    exact hlink target
  · rw [h.above P hP e]
    simp

/-- A directory that a walk can come to lies in such a directory. -/
theorem dir_dropLast (h : Reached d l) (hdir : d.get? l = some .dir) :
    d.get? l.dropLast = some .dir := by
  by_cases e : l.dropLast = l
  · rw [e, hdir]
  · exact h.above _ (List.dropLast_prefix l) e

end Reached

theorem lacks_of_mem_stepsOf {text n : String} (h : n ∈ stepsOf text) : Lacks '/' n := by
  simp only [stepsOf] at h
  have hnames {m : String} (hm : m ∈ namesOf text) : Lacks '/' m :=
    lacks_of_mem_segments (List.mem_filter.mp hm).1
  split at h
  · rcases List.mem_append.mp h with h | h
    · exact hnames h
    · rw [List.mem_singleton.mp h]
      decide
  · exact hnames h

/-! ## Where names lead -/

/-- Where names lead from a directory up to the first link, if the directories are there; `follow`
goes on from the link. -/
def aimNames (d : Disk) (follow : Location → List String → Option Location) (here : Location) :
    List String → Option Location
  | [] => some here
  | name :: rest =>
    if name = "" ∨ name = "." then aimNames d follow here rest
    else if name = ".." then aimNames d follow here.dropLast rest
    else
      match d.get? (here ++ [name]) with
      | some (.link target) =>
        follow (if isAbsoluteText target then [] else here) (stepsOf target ++ rest)
      | _ => aimNames d follow (here ++ [name]) rest

/-- Where names lead from a directory, by at most so many links, if the directories are there. -/
def aim (d : Disk) : Nat → Location → List String → Option Location
  | 0 => aimNames d fun _ _ => none
  | links + 1 => aimNames d (aim d links)

/-- Where a path leads if the directories are there. -/
def placeOf (d : Disk) (p : Path) : Option Location :=
  d.aim linkBudget (d.startOf p.text) (namesOf p.text)

section

variable {d : Disk} {links : Nat} {here : Location} {name : String} {rest : List String}

theorem aim_nil : d.aim links here [] = some here := by
  cases links <;> rfl

theorem aim_dot (hdot : name = "" ∨ name = ".") :
    d.aim links here (name :: rest) = d.aim links here rest := by
  cases links <;> rw [aim, aimNames, if_pos hdot]

theorem aim_up : d.aim links here (".." :: rest) = d.aim links here.dropLast rest := by
  cases links <;> rw [aim, aimNames, if_neg (by decide), if_pos rfl]

theorem aim_into (hdot : ¬ (name = "" ∨ name = ".")) (hup : name ≠ "..")
    (hlink : ∀ target, d.get? (here ++ [name]) ≠ some (.link target)) :
    d.aim links here (name :: rest) = d.aim links (here ++ [name]) rest := by
  cases links <;> rw [aim, aimNames, if_neg hdot, if_neg hup] <;> split <;>
    first | rfl | exact absurd ‹_› (hlink _)

theorem aim_along {target : String} (hdot : ¬ (name = "" ∨ name = ".")) (hup : name ≠ "..")
    (hlink : d.get? (here ++ [name]) = some (.link target)) :
    d.aim (links + 1) here (name :: rest) =
      d.aim links (if isAbsoluteText target then [] else here) (stepsOf target ++ rest) := by
  rw [aim, aimNames, if_neg hdot, if_neg hup, hlink]

theorem aim_stuck {target : String} (hdot : ¬ (name = "" ∨ name = ".")) (hup : name ≠ "..")
    (hlink : d.get? (here ++ [name]) = some (.link target)) :
    d.aim 0 here (name :: rest) = none := by
  rw [aim, aimNames, if_neg hdot, if_neg hup, hlink]

/-- Induction on the names that are followed, those of links included. -/
theorem aim_induct {motive : Nat → Location → List String → Prop} (d : Disk)
    (nil : ∀ links here, motive links here [])
    (dot : ∀ links here name rest, name = "" ∨ name = "." → motive links here rest →
      motive links here (name :: rest))
    (up : ∀ links here rest, motive links here.dropLast rest → motive links here (".." :: rest))
    (into : ∀ links here name rest, ¬ (name = "" ∨ name = ".") → name ≠ ".." →
      (∀ target, d.get? (here ++ [name]) ≠ some (.link target)) →
      motive links (here ++ [name]) rest → motive links here (name :: rest))
    (along : ∀ links here name rest target, ¬ (name = "" ∨ name = ".") → name ≠ ".." →
      d.get? (here ++ [name]) = some (.link target) →
      motive links (if isAbsoluteText target then [] else here) (stepsOf target ++ rest) →
      motive (links + 1) here (name :: rest))
    (stuck : ∀ here name rest target, ¬ (name = "" ∨ name = ".") → name ≠ ".." →
      d.get? (here ++ [name]) = some (.link target) → motive 0 here (name :: rest))
    (links : Nat) (here : Location) (names : List String) : motive links here names := by
  induction links using Nat.strong_induction_on generalizing here names with
  | _ links hlinks =>
    induction names generalizing here with
    | nil => exact nil links here
    | cons name rest ih =>
      by_cases hdot : name = "" ∨ name = "."
      · exact dot links here name rest hdot (ih here)
      · by_cases hup : name = ".."
        · subst hup
          exact up links here rest (ih _)
        · by_cases hlink : ∃ target, d.get? (here ++ [name]) = some (.link target)
          · obtain ⟨target, hlink⟩ := hlink
            cases links with
            | zero => exact stuck here name rest target hdot hup hlink
            | succ links =>
              exact along links here name rest target hdot hup hlink
                (hlinks links (Nat.lt_succ_self links) _ _)
          · exact into links here name rest hdot hup (fun target e => hlink ⟨target, e⟩) (ih _)

/-- A slash at the end does not lead anywhere else. -/
theorem aim_slash (links : Nat) (here : Location) (names : List String) :
    d.aim links here (names ++ [""]) = d.aim links here names := by
  induction links, here, names using aim_induct (d := d) with
  | nil links here => rw [List.nil_append, aim_dot (.inl rfl)]
  | dot links here name rest hdot ih => rw [List.cons_append, aim_dot hdot, aim_dot hdot, ih]
  | up links here rest ih => rw [List.cons_append, aim_up, aim_up, ih]
  | into links here name rest hdot hup hlink ih =>
    rw [List.cons_append, aim_into hdot hup hlink, aim_into hdot hup hlink, ih]
  | along links here name rest target hdot hup hlink ih =>
    rw [List.cons_append, aim_along hdot hup hlink, aim_along hdot hup hlink, ← ih,
      List.append_assoc]
  | stuck here name rest target hdot hup hlink =>
    rw [List.cons_append, aim_stuck hdot hup hlink, aim_stuck hdot hup hlink]

theorem aim_stepsOf (links : Nat) (here : Location) (text : String) :
    d.aim links here (stepsOf text) = d.aim links here (namesOf text) := by
  simp only [stepsOf]
  split
  · exact aim_slash links here _
  · rfl

/-- Names that lead on without a link can follow any others. -/
theorem aim_append {m l : Location} {back : List String}
    (hback : ∀ links, d.aim links m back = some l) {links : Nat} {here : Location}
    {front : List String} (h : d.aim links here front = some m) :
    d.aim links here (front ++ back) = some l := by
  induction links, here, front using aim_induct (d := d) with
  | nil links here =>
    rw [aim_nil] at h
    cases h
    exact hback links
  | dot links here name rest hdot ih =>
    rw [aim_dot hdot] at h
    rw [List.cons_append, aim_dot hdot, ih h]
  | up links here rest ih =>
    rw [aim_up] at h
    rw [List.cons_append, aim_up, ih h]
  | into links here name rest hdot hup hlink ih =>
    rw [aim_into hdot hup hlink] at h
    rw [List.cons_append, aim_into hdot hup hlink, ih h]
  | along links here name rest target hdot hup hlink ih =>
    rw [aim_along hdot hup hlink] at h
    rw [List.cons_append, aim_along hdot hup hlink, ← List.append_assoc, ih h]
  | stuck here name rest target hdot hup hlink =>
    rw [aim_stuck hdot hup hlink] at h
    cases h

/-- Names that do not go up lead where they say, if no link is on the way. -/
theorem aim_lexical {names : List String} (hup : ".." ∉ names) (links : Nat) {here : Location}
    (hclear : d.Clear (lexical here names)) :
    d.aim links here names = some (lexical here names) := by
  induction names generalizing here with
  | nil => exact aim_nil
  | cons name rest ih =>
    simp only [List.mem_cons, not_or] at hup
    rw [lexical] at hclear ⊢
    by_cases hdot : name = "" ∨ name = "."
    · rw [if_pos hdot] at hclear ⊢
      rw [aim_dot hdot, ih hup.2 hclear]
    · rw [if_neg hdot, if_neg (Ne.symm hup.1)] at hclear ⊢
      rw [aim_into hdot (Ne.symm hup.1) fun target => ?_, ih hup.2 hclear]
      exact hclear _ target (prefix_lexical hup.2 _)

end

/-! ## What stands there -/

theorem stat_eq_ok {d : Disk} {p : Path} {l : Location} {n : Node} (h : d.stat p = .ok (l, n)) :
    d.locate .target p = .ok l ∧ d.get? l = some n := by
  unfold stat at h
  cases hl : d.locate .target p with
  | error e => rw [hl] at h; cases h
  | ok k =>
    rw [hl] at h
    cases hn : d.get? k with
    | none => simp only [bind, Except.bind, hn] at h; cases h
    | some m =>
      simp only [bind, Except.bind, hn] at h
      cases h
      exact ⟨rfl, hn⟩

theorem stat_of_locate {d : Disk} {p : Path} {l : Location} {n : Node}
    (hl : d.locate .target p = .ok l) (hn : d.get? l = some n) : d.stat p = .ok (l, n) := by
  simp only [stat, hl, bind, Except.bind, hn]

end Whittle.Disk
