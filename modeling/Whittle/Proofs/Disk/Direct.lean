import Whittle.Proofs.Disk.Removal

/-!
# Direct paths

A path is direct if it does not go up and passes through no link; it may end at one. What such a
path names is settled by its text alone (`Path.Direct.lstat_eq`), and a removal that says it is gone
has left nothing there (`Path.Direct.missing_of_removed`), for good (`Path.Direct.stays_missing`).
-/

namespace Whittle

open Text Disk

namespace Disk

/-! ## Walks along direct names -/

section

variable {d d' : Disk} {here l : Location} {name : String} {names rest : List String}
  {follow follow' : Location → List String → Except Errno Location}

/-- Names that do not go up, and of which at most the last one is a link. -/
inductive Direct (d : Disk) : Location → List String → Prop
  | here {here : Location} : Direct d here []
  | dot {here : Location} {name : String} {rest : List String} (hdot : name = "" ∨ name = ".")
    (h : Direct d here rest) : Direct d here (name :: rest)
  | into {here : Location} {name : String} {rest : List String}
    (hdot : ¬ (name = "" ∨ name = ".")) (hup : name ≠ "..")
    (hlink : ∀ target, d.get? (here ++ [name]) ≠ some (.link target))
    (h : Direct d (here ++ [name]) rest) : Direct d here (name :: rest)
  | link {here : Location} {name target : String} (hdot : ¬ (name = "" ∨ name = "."))
    (hup : name ≠ "..") (hlink : d.get? (here ++ [name]) = some (.link target)) :
    Direct d here [name]

/-- A check for direct names. -/
def goesDirect (d : Disk) (here : Location) : List String → Bool
  | [] => true
  | name :: rest =>
    if name = "" ∨ name = "." then d.goesDirect here rest
    else if name = ".." then false
    else
      match d.get? (here ++ [name]) with
      | some (.link _) => rest.isEmpty
      | _ => d.goesDirect (here ++ [name]) rest

theorem direct_of_goesDirect (h : d.goesDirect here names = true) : Direct d here names := by
  induction names generalizing here with
  | nil => exact .here
  | cons name rest ih =>
    rw [goesDirect] at h
    split at h
    · rename_i hdot
      exact .dot hdot (ih h)
    · rename_i hdot
      split at h
      · cases h
      · rename_i hup
        split at h
        · rename_i target hlink
          cases rest with
          | nil => exact .link hdot hup hlink
          | cons => cases h
        · rename_i hlink
          exact .into hdot hup hlink (ih h)

theorem walkNames_dot (hdot : name = "" ∨ name = ".") :
    d.walkNames .entry follow here (name :: rest) = d.walkNames .entry follow here rest := by
  rw [walkNames, if_pos hdot]

theorem walkNames_name (hdot : ¬ (name = "" ∨ name = ".")) (hup : name ≠ "..") :
    d.walkNames .entry follow here (name :: rest) =
      if name.utf8ByteSize > nameLimit then .error .nameTooLong
      else match d.get? (here ++ [name]) with
        | none => if rest = [] then .ok (here ++ [name]) else .error .notFound
        | some .dir => d.walkNames .entry follow (here ++ [name]) rest
        | some (.link target) =>
          if rest = [] then .ok (here ++ [name])
          else follow (if isAbsoluteText target then [] else here) (stepsOf target ++ rest)
        | some _ => if rest = [] then .ok (here ++ [name]) else .error .notDirectory := by
  have hentry : ¬ (Purpose.entry = .file ∧ rest = [""]) := by
    rintro ⟨e, -⟩
    cases e
  rw [walkNames, if_neg hdot, if_neg hup, if_neg hentry]
  cases d.get? (here ++ [name]) with
  | none => rfl
  | some n =>
    cases n with
    | link target => simp only [and_true]
    | file | dir | sink => rfl

theorem lexical_dot (hdot : name = "" ∨ name = ".") :
    lexical here (name :: rest) = lexical here rest := by
  rw [lexical, if_pos hdot]

theorem lexical_name (hdot : ¬ (name = "" ∨ name = ".")) (hup : name ≠ "..") :
    lexical here (name :: rest) = lexical (here ++ [name]) rest := by
  rw [lexical, if_neg hdot, if_neg hup]

namespace Direct

theorem ahead (h : Direct d here names) : ".." ∉ names := by
  induction h with
  | here => exact List.not_mem_nil
  | dot hdot _ ih =>
    rintro hup
    rcases List.mem_cons.mp hup with rfl | hup
    · revert hdot
      decide
    · exact ih hup
  | into _ hup _ _ ih => exact fun hmem => (List.mem_cons.mp hmem).elim (Ne.symm hup) ih
  | link _ hup _ => exact fun hmem => hup (List.mem_singleton.mp hmem).symm

/-- Where there is less, there are no other links. -/
theorem mono (h : Direct d here names)
    (hold : ∀ P n, d'.get? P = some n → d.get? P = some n) : Direct d' here names := by
  induction h with
  | here => exact .here
  | dot hdot _ ih => exact .dot hdot ih
  | into hdot hup hlink _ ih => exact .into hdot hup (fun target e => hlink target (hold _ _ e)) ih
  | @link here name target hdot hup _ =>
    by_cases hleft : ∃ target, d'.get? (here ++ [name]) = some (.link target)
    · obtain ⟨target, hleft⟩ := hleft
      exact .link hdot hup hleft
    · exact .into hdot hup (not_exists.mp hleft) .here

theorem front (h : Direct d here (names ++ rest)) : Direct d here names := by
  induction names generalizing here with
  | nil => exact .here
  | cons name names ih =>
    rw [List.cons_append] at h
    generalize hnames : names ++ rest = after at h
    cases h with
    | dot hdot h => exact .dot hdot (ih (hnames ▸ h))
    | into hdot hup hlink h => exact .into hdot hup hlink (ih (hnames ▸ h))
    | link hdot hup hlink =>
      obtain ⟨rfl, -⟩ := List.append_eq_nil_iff.mp hnames
      exact .link hdot hup hlink

/-- A walk along direct names ends, if anywhere, where they say. -/
theorem leads (h : Direct d here names) (hwalk : d.walkNames .entry follow here names = .ok l) :
    l = lexical here names := by
  induction h with
  | here =>
    cases hwalk
    rfl
  | dot hdot _ ih =>
    rw [walkNames_dot hdot] at hwalk
    rw [lexical_dot hdot, ih hwalk]
  | into hdot hup hlink _ ih =>
    rw [walkNames_name hdot hup] at hwalk
    rw [lexical_name hdot hup]
    split at hwalk
    · cases hwalk
    · split at hwalk
      · split at hwalk
        · rename_i hrest
          cases hwalk
          rw [hrest, lexical]
        · cases hwalk
      · exact ih hwalk
      · rename_i target hnode
        exact absurd hnode (hlink target)
      · split at hwalk
        · rename_i hrest
          cases hwalk
          rw [hrest, lexical]
        · cases hwalk
  | link hdot hup hlink =>
    rw [walkNames_name hdot hup, hlink] at hwalk
    rw [lexical_name hdot hup, lexical]
    split at hwalk
    · cases hwalk
    · cases hwalk
      rfl

/-- The walk sees nothing but what stands at its end and above. -/
theorem walk_congr (h : Direct d here names)
    (hsame : ∀ P, P <+: lexical here names → d'.get? P = d.get? P) :
    d'.walkNames .entry follow' here names = d.walkNames .entry follow here names := by
  induction h with
  | here => rfl
  | dot hdot _ ih =>
    rw [lexical_dot hdot] at hsame
    rw [walkNames_dot hdot, walkNames_dot hdot, ih hsame]
  | @into here name rest hdot hup hlink h ih =>
    rw [lexical_name hdot hup] at hsame
    rw [walkNames_name hdot hup, walkNames_name hdot hup, hsame _ (prefix_lexical h.ahead _),
      ih hsame]
    split
    · rfl
    · split
      · rfl
      · rfl
      · rename_i target hnode
        exact absurd hnode (hlink target)
      · rfl
  | link hdot hup hlink =>
    rw [lexical_name hdot hup, lexical] at hsame
    rw [walkNames_name hdot hup, walkNames_name hdot hup, hsame _ (List.prefix_refl _), hlink]
    rfl

/-- A slash at the end asks for a directory, and the walk without it comes to the same place. -/
theorem walk_unslash (h : Direct d here (names ++ [""]))
    (hwalk : d.walkNames .entry follow here (names ++ [""]) = .ok l) :
    d.walkNames .entry follow' here names = .ok l := by
  induction names generalizing here with
  | nil =>
    rw [List.nil_append, walkNames_dot (.inl rfl)] at hwalk
    exact hwalk
  | cons name names ih =>
    have hmore : names ++ [""] ≠ [] := by simp
    rw [List.cons_append] at h hwalk
    generalize hnames : names ++ [""] = after at h hwalk hmore
    cases h with
    | dot hdot h =>
      rw [walkNames_dot hdot] at hwalk ⊢
      subst hnames
      exact ih h hwalk
    | into hdot hup hlink h =>
      subst hnames
      rw [walkNames_name hdot hup, if_neg hmore] at hwalk
      rw [walkNames_name hdot hup]
      split at hwalk
      · cases hwalk
      · rename_i hsize
        rw [if_neg hsize]
        cases hnode : d.get? (here ++ [name]) with
        | none =>
          rw [hnode] at hwalk
          cases hwalk
        | some n =>
          rw [hnode] at hwalk
          cases n with
          | dir => exact ih h hwalk
          | link target => exact absurd hnode (hlink target)
          | file => cases hwalk
          | sink => cases hwalk
    | link hdot hup hlink => exact absurd rfl hmore

end Direct

/-- A walk that comes to nothing. -/
def Misses (d : Disk) (r : Except Errno Location) : Prop :=
  r = .error .notFound ∨ ∃ l, r = .ok l ∧ d.get? l = none

theorem misses_name (hdot : ¬ (name = "" ∨ name = ".")) (hup : name ≠ "..")
    (hsize : ¬ name.utf8ByteSize > nameLimit) (hnone : d.get? (here ++ [name]) = none) :
    d.Misses (d.walkNames .entry follow here (name :: rest)) := by
  rw [walkNames_name hdot hup, if_neg hsize, hnone]
  by_cases hrest : rest = []
  · exact .inr ⟨_, if_pos hrest, hnone⟩
  · exact .inl (if_neg hrest)

namespace Direct

/-- If what stands at the end is taken away, a walk that came there comes to nothing. -/
theorem misses_of_taken (h : Direct d here names)
    (hwalk : d.walkNames .entry follow here names = .ok l)
    (hother : ∀ P, ¬ lexical here names <+: P → d'.get? P = d.get? P)
    (hgone : d'.get? (lexical here names) = none) :
    d'.Misses (d'.walkNames .entry follow' here names) := by
  induction h with
  | here => exact .inr ⟨_, rfl, hgone⟩
  | dot hdot _ ih =>
    rw [walkNames_dot hdot] at hwalk ⊢
    rw [lexical_dot hdot] at hother hgone
    exact ih hwalk hother hgone
  | @into here name rest hdot hup hlink h ih =>
    rw [walkNames_name hdot hup] at hwalk
    rw [lexical_name hdot hup] at hother hgone
    split at hwalk
    · cases hwalk
    · rename_i hsize
      cases hleft : d'.get? (here ++ [name]) with
      | none => exact misses_name hdot hup hsize hleft
      | some n =>
        rw [walkNames_name hdot hup, if_neg hsize, hleft]
        -- What is left on the way stands above the end.
        have habove : ¬ lexical (here ++ [name]) rest <+: here ++ [name] := fun hP => by
          rw [hP.eq_of_length_le (prefix_lexical h.ahead _).length_le, hleft] at hgone
          cases hgone
        have hnode := hother _ habove
        rw [hleft] at hnode
        rw [← hnode] at hwalk
        cases n with
        | dir => exact ih hwalk hother hgone
        | link target => exact absurd hnode.symm (hlink target)
        | file | sink =>
          by_cases hrest : rest = []
          · subst hrest
            exact absurd (List.prefix_refl _) habove
          · dsimp only at hwalk
            rw [if_neg hrest] at hwalk
            cases hwalk
  | link hdot hup hlink =>
    rw [walkNames_name hdot hup] at hwalk
    rw [lexical_name hdot hup, lexical] at hgone
    split at hwalk
    · cases hwalk
    · rename_i hsize
      exact misses_name hdot hup hsize hgone

/-- A walk that comes to nothing also does so where there is less. -/
theorem misses_mono (h : Direct d here names)
    (hold : ∀ P n, d'.get? P = some n → d.get? P = some n)
    (hmiss : d.Misses (d.walkNames .entry follow here names)) :
    d'.Misses (d'.walkNames .entry follow' here names) := by
  have hnone {P : Location} (hP : d.get? P = none) : d'.get? P = none :=
    Option.eq_none_iff_forall_ne_some.mpr fun n hn => by
      rw [hold P n hn] at hP
      cases hP
  induction h with
  | here =>
    rcases hmiss with e | ⟨l, e, hl⟩
    · cases e
    · cases e
      exact .inr ⟨_, rfl, hnone hl⟩
  | dot hdot _ ih =>
    rw [walkNames_dot hdot] at hmiss ⊢
    exact ih hmiss
  | @into here name rest hdot hup hlink h ih =>
    rw [walkNames_name hdot hup] at hmiss
    split at hmiss
    · rcases hmiss with e | ⟨l, e, -⟩ <;> cases e
    · rename_i hsize
      cases hleft : d'.get? (here ++ [name]) with
      | none => exact misses_name hdot hup hsize hleft
      | some n =>
        rw [walkNames_name hdot hup, if_neg hsize, hleft]
        have hnode := hold _ _ hleft
        rw [hnode] at hmiss
        cases n with
        | dir => exact ih hmiss
        | link target => exact absurd hnode (hlink target)
        | file | sink =>
          by_cases hrest : rest = []
          · rcases hmiss with e | ⟨l, e, hl⟩
            · cases (if_pos hrest).symm.trans e
            · cases (if_pos hrest).symm.trans e
              rw [hnode] at hl
              cases hl
          · rcases hmiss with e | ⟨l, e, -⟩ <;> cases (if_neg hrest).symm.trans e
  | link hdot hup hlink =>
    rw [walkNames_name hdot hup, hlink] at hmiss
    split at hmiss
    · rcases hmiss with e | ⟨l, e, -⟩ <;> cases e
    · rcases hmiss with e | ⟨l, e, hl⟩
      · cases e
      · cases e
        rw [hlink] at hl
        cases hl

end Direct

theorem Trims.startOf (h : Trims d d') (text : String) : d'.startOf text = d.startOf text := by
  obtain ⟨keep, rfl⟩ := h
  rfl

/-- The place that a path names if no link is on the way. -/
def spot (d : Disk) (p : Path) : Location := lexical (d.startOf p.text) (namesOf p.text)

theorem Sheds.erase (d : Disk) (m : Location) : Sheds d (d.erase m) m where
  old _ _ := (Trims.erase d m).old
  other P hP := by
    have hkeep : decide (P ≠ m) = true := decide_eq_true fun e => hP (e ▸ List.prefix_refl m)
    unfold get? Disk.erase
    dsimp only
    rw [valueAt_filter (fun k => decide (k ≠ m)) P d.entries, if_pos hkeep]

end

end Disk

namespace Path

/-- A path that does not go up and passes through no link. -/
def Direct (d : Disk) (p : Path) : Prop := d.Direct (d.startOf p.text) (stepsOf p.text)

namespace Direct

variable {d d' : Disk} {p : Path} {l : Location} {n : Node}

theorem names (h : p.Direct d) : d.Direct (d.startOf p.text) (namesOf p.text) := by
  unfold Path.Direct at h
  rcases stepsOf_eq p.text with e | e <;> rw [e] at h
  · exact h
  · exact h.front

theorem trims (h : p.Direct d) (htrims : Trims d d') : p.Direct d' := by
  unfold Path.Direct
  rw [htrims.startOf]
  exact Disk.Direct.mono h fun P n => htrims.old

theorem spot_trims (htrims : Trims d d') : d'.spot p = d.spot p :=
  congrArg (lexical · (namesOf p.text)) (htrims.startOf p.text)

/-! ## What stands there -/

theorem locate_entry_iff : d.locate .entry p = .ok l ↔ checkText p.text = .ok () ∧
    d.walkNames .entry (d.walkOn .entry linkBudget) (d.startOf p.text) (stepsOf p.text) =
      .ok l := by
  unfold Disk.locate
  rw [walk_eq]
  cases checkText p.text with
  | error e => exact ⟨fun h => (nomatch h), fun h => (nomatch h.1)⟩
  | ok u => exact ⟨fun h => ⟨rfl, h⟩, fun h => h.2⟩

theorem lstat_missing_iff : d.lstat p = .error .notFound ↔
    checkText p.text = .error .notFound ∨ checkText p.text = .ok () ∧
      d.Misses (d.walkNames .entry (d.walkOn .entry linkBudget) (d.startOf p.text)
        (stepsOf p.text)) := by
  unfold Disk.lstat Disk.locate Misses
  rw [walk_eq]
  cases checkText p.text with
  | error e => simp [bind, Except.bind]
  | ok u =>
    generalize d.walkNames .entry _ _ _ = r
    cases r with
    | error e => simp [bind, Except.bind]
    | ok l => cases hl : d.get? l <;> simp [bind, Except.bind, hl]

theorem lstat_eq (h : p.Direct d) (hstat : d.lstat p = .ok (l, n)) :
    l = d.spot p ∧ d.get? l = some n := by
  obtain ⟨hlocate, hn⟩ := lstat_eq_ok hstat
  refine ⟨?_, hn⟩
  rw [Disk.Direct.leads h (locate_entry_iff.mp hlocate).2, lexical_stepsOf]
  rfl

theorem locateEntry_eq (h : p.Direct d) (hl : d.locateEntry p = .ok l) : l = d.spot p := by
  unfold Disk.locateEntry at hl
  rw [walk_eq] at hl
  cases hcheck : checkText p.text with
  | error e => rw [hcheck] at hl; cases hl
  | ok u =>
    rw [hcheck] at hl
    exact h.names.leads hl

theorem locateEntry_of_lstat (h : p.Direct d) (hstat : d.lstat p = .ok (l, n)) :
    d.locateEntry p = .ok l := by
  obtain ⟨hcheck, hwalk⟩ := locate_entry_iff.mp (lstat_eq_ok hstat).1
  unfold Disk.locateEntry
  rw [walk_eq, hcheck]
  unfold Path.Direct at h
  show d.walkNames .entry _ _ (namesOf p.text) = .ok l
  rcases stepsOf_eq p.text with e | e <;> rw [e] at h hwalk
  · exact hwalk
  · exact h.walk_unslash hwalk

/-- A path that does not end in a dot names a place below the root. -/
theorem spot_ne_nil (h : p.Direct d) {n : String} (hlast : (namesOf p.text).getLast? = some n)
    (hdot : n ≠ ".") : d.spot p ≠ [] := by
  have hmem := List.mem_of_getLast? hlast
  have hempty : n ≠ "" := by simpa using (List.mem_filter.mp hmem).2
  unfold spot
  rw [lexical_ahead h.names.ahead]
  exact List.ne_nil_of_mem (List.mem_append_right _
    (List.mem_filter.mpr ⟨hmem, by simpa using ⟨hempty, hdot⟩⟩))

/-- What is gone stays gone where things are only taken away. -/
theorem stays_missing (h : p.Direct d) (htrims : Trims d d')
    (hmissing : d.lstat p = .error .notFound) : d'.lstat p = .error .notFound := by
  rw [lstat_missing_iff] at hmissing ⊢
  rw [htrims.startOf]
  exact hmissing.imp_right fun ⟨hcheck, hmisses⟩ =>
    ⟨hcheck, Disk.Direct.misses_mono h (fun P n => htrims.old) hmisses⟩

/-- Where something stood and was taken away, nothing is. -/
theorem missing_of_taken (h : p.Direct d) (hstat : d.lstat p = .ok (l, n)) (htrims : Trims d d')
    (hsheds : Sheds d d' (d.spot p)) (hgone : d'.get? (d.spot p) = none) :
    d'.lstat p = .error .notFound := by
  obtain ⟨hcheck, hwalk⟩ := locate_entry_iff.mp (lstat_eq_ok hstat).1
  have hspot : d.spot p = lexical (d.startOf p.text) (stepsOf p.text) := (lexical_stepsOf _ _).symm
  rw [hspot] at hsheds hgone
  rw [lstat_missing_iff, htrims.startOf]
  exact .inr ⟨hcheck, Disk.Direct.misses_of_taken h hwalk hsheds.other hgone⟩

/-! ## Removals -/

theorem sheds_unlinked (h : p.Direct d) (hunlink : d.unlink p = .ok d') :
    Sheds d d' (d.spot p) := by
  obtain ⟨l, hl, -, -, rfl⟩ := unlink_eq_ok hunlink
  rw [h.locateEntry_eq hl]
  exact .erase d _

theorem sheds_dirRemoved (h : p.Direct d) (hremove : d.removeDir p = .ok d') :
    Sheds d d' (d.spot p) := by
  obtain ⟨l, -, hl, -, -, -, rfl⟩ := removeDir_eq_ok hremove
  rw [h.locateEntry_eq hl]
  exact .erase d _

theorem sheds_treeRemoved (h : p.Direct d) : Sheds d (d.removeTree p).2 (d.spot p) := by
  unfold Disk.removeTree
  split
  · exact .refl d _
  · rename_i l target hstat
    rw [(h.lstat_eq hstat).1]
    exact .erase d _
  · rename_i l hstat
    have htrims := Trims.emptied d l
    have hbelow := sheds_emptied d l
    rw [(h.lstat_eq hstat).1] at htrims hbelow ⊢
    dsimp only
    split
    · rename_i d' hremoved
      have hdir := (h.trims htrims).sheds_dirRemoved hremoved
      rw [spot_trims htrims] at hdir
      exact hbelow.trans hdir
    · split <;> exact hbelow
  · exact .refl d _

/-- A removal takes nothing away but what stands at the place of the path and below. -/
theorem sheds_removed (h : p.Direct d) : Sheds d (d.removeArtifact p).2 (d.spot p) := by
  have htree := h.sheds_treeRemoved
  unfold Disk.removeArtifact
  split
  · exact .refl d _
  · exact .refl d _
  · split
    · rename_i hremoved
      rwa [hremoved] at htree
    · rename_i hremoved
      rw [hremoved] at htree
      split <;> exact htree
  · split
    · rename_i hunlink
      exact h.sheds_unlinked hunlink
    · split <;> exact .refl d _

/-- A directory that was emptied is found where it was. -/
theorem lstat_emptied (h : p.Direct d) (hstat : d.lstat p = .ok (l, .dir)) :
    (d.emptied l).lstat p = .ok (l, .dir) := by
  obtain ⟨hlocate, hdir⟩ := lstat_eq_ok hstat
  obtain ⟨hcheck, hwalk⟩ := locate_entry_iff.mp hlocate
  have hkept (P : Location) (hP : P <+: l) : (d.emptied l).get? P = d.get? P := by
    rw [get?_emptied, if_neg]
    exact fun hbelow => hbelow.2 (hP.eq_of_length_le hbelow.1.length_le)
  have hend := Disk.Direct.leads h hwalk
  have hlocate' : (d.emptied l).locate .entry p = .ok l :=
    locate_entry_iff.mpr ⟨hcheck,
      (Disk.Direct.walk_congr h fun P hP => hkept P (hend ▸ hP)).trans hwalk⟩
  simp only [Disk.lstat, hlocate', bind, Except.bind, hkept l (List.prefix_refl l), hdir]

/-- A directory that was emptied is not missed. -/
theorem removeDir_emptied (h : p.Direct d) (hstat : d.lstat p = .ok (l, .dir)) {e : IoError}
    (hremove : (d.emptied l).removeDir p = .error e) : e.isNotFound = false := by
  have hleft := h.lstat_emptied hstat
  have hentry := (h.trims (Trims.emptied d l)).locateEntry_of_lstat hleft
  unfold Disk.removeDir at hremove
  rw [hentry] at hremove
  dsimp only at hremove
  rw [(lstat_eq_ok hleft).2] at hremove
  split at hremove
  · cases hremove
    rfl
  · cases hremove
    rfl
  · cases hremove
    rfl
  · dsimp only at hremove
    split at hremove
    · cases hremove
      rfl
    · cases hremove

theorem missing_of_treeRemoved (h : p.Direct d) (hstat : d.lstat p = .ok (l, .dir))
    {r : Except IoError Unit} (hremove : d.removeTree p = (r, d')) :
    (r = .ok () ∧ d'.lstat p = .error .notFound) ∨ ∃ e, r = .error e ∧ e.isNotFound = false := by
  have hsheds := h.sheds_treeRemoved
  have htrims := Trims.removeTree d p
  rw [hremove] at hsheds htrims
  unfold Disk.removeTree at hremove
  rw [hstat] at hremove
  dsimp only at hremove
  split at hremove
  · rename_i d₁ hremoved
    cases hremove
    have hremoved : (d.emptied l).removeDir p = .ok d' := hremoved
    obtain ⟨k, n, hk, hlast, hdot, -, rfl⟩ := removeDir_eq_ok hremoved
    refine .inl ⟨rfl, h.missing_of_taken hstat htrims hsheds ?_⟩
    have hspot := (h.trims (Trims.emptied d l)).locateEntry_eq hk
    rw [spot_trims (Trims.emptied d l)] at hspot
    rw [hspot, get?_erase _ (h.spot_ne_nil hlast hdot), if_pos rfl]
  · rename_i e hrefused
    have hmissed := h.removeDir_emptied hstat hrefused
    rw [if_neg (by simp [hmissed])] at hremove
    cases hremove
    exact .inr ⟨e, rfl, hmissed⟩

/-- What stands at a path is not missed when it is unlinked. -/
theorem unlink_not_missed (h : p.Direct d) (hstat : d.lstat p = .ok (l, n)) {e : IoError}
    (hunlink : d.unlink p = .error e) : e.isNotFound = false := by
  unfold Disk.unlink at hunlink
  rw [h.locateEntry_of_lstat hstat] at hunlink
  dsimp only at hunlink
  rw [(lstat_eq_ok hstat).2] at hunlink
  have hrefused {d' : Disk} (h : (if endsInSlash p.text then .error (.system .notDirectory)
      else .ok d') = Except.error e) : e.isNotFound = false := by
    split at h <;> cases h
    rfl
  cases n with
  | dir =>
    cases hunlink
    rfl
  | file | link | sink => exact hrefused hunlink

/-- What a removal says is gone is not there. -/
theorem missing_of_removed (h : p.Direct d) {b : Bool}
    (hremove : d.removeArtifact p = (.ok b, d')) : d'.lstat p = .error .notFound := by
  have hsheds := h.sheds_removed
  have htrims := Trims.removeArtifact d p
  rw [hremove] at hsheds htrims
  unfold Disk.removeArtifact at hremove
  split at hremove
  · rename_i hstat
    cases hremove
    exact hstat
  · cases hremove
  · rename_i l hstat
    cases htree : d.removeTree p with
    | mk r d₁ =>
      rw [htree] at hremove
      rcases h.missing_of_treeRemoved hstat htree with ⟨rfl, hmissing⟩ | ⟨e, rfl, hmissed⟩
      · cases hremove
        exact hmissing
      · dsimp only at hremove
        rw [if_neg (by simp [hmissed])] at hremove
        cases hremove
  · rename_i l n hdir hstat
    split at hremove
    · rename_i d₁ hunlink
      cases hremove
      obtain ⟨k, hk, -, -, rfl⟩ := unlink_eq_ok hunlink
      have hroot : d.spot p ≠ [] := by
        obtain ⟨rfl, hn⟩ := h.lstat_eq hstat
        intro e
        rw [e, get?_nil] at hn
        exact hdir (Option.some.inj hn).symm
      refine h.missing_of_taken hstat htrims hsheds ?_
      rw [h.locateEntry_eq hk, get?_erase _ hroot, if_pos rfl]
    · rename_i e hunlink
      split at hremove
      · rename_i hmissed
        rw [h.unlink_not_missed hstat hunlink] at hmissed
        cases hmissed
      · cases hremove

end Direct
end Path
end Whittle
