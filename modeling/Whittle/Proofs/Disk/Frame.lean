import Whittle.Disk.Operations
import Whittle.Proofs.Disk.Route

/-!
# What an operation leaves as it was

Writing, copying, removing and making a directory alter one place (`Alters`), a rename empties one
place and fills another (`rename_ok`). What stands at a location and above it is not touched by
operations on places that are not there (`Holds`), and so a path to it reads as before.
-/

namespace Whittle.Disk

open Text

/-! ## Entries -/

theorem mem_of_valueAt {α β : Type} [DecidableEq α] {k : α} {v : β} {es : List (α × β)}
    (h : valueAt k es = some v) : (k, v) ∈ es := by
  induction es with
  | nil => cases h
  | cons e es ih =>
    rw [valueAt] at h
    split at h
    · rename_i hk
      cases h
      rw [← hk]
      exact List.mem_cons_self
    · exact List.mem_cons_of_mem _ (ih h)

theorem entry_of_get? {d : Disk} {l : Location} {n : Node} (h : d.get? l = some n)
    (hn : n ≠ .dir) : (l, n) ∈ d.entries := by
  unfold get? at h
  split at h
  · cases h
    exact absurd rfl hn
  · exact mem_of_valueAt h

theorem get?_of_mem {d : Disk} {e : Location × Node} (he : e ∈ d.entries) (hroot : e.1 ≠ []) :
    d.get? e.1 ≠ none := by
  have hvalue {es : List (Location × Node)} (he : e ∈ es) : valueAt e.1 es ≠ none := by
    induction es with
    | nil => cases he
    | cons first es ih =>
      rw [valueAt]
      split
      · simp
      · rename_i hne
        rcases List.mem_cons.mp he with rfl | he
        · exact absurd rfl hne
        · exact ih he
  rw [get?, if_neg hroot]
  exact hvalue he

/-! ## Changes of one place -/

/-- Two disks that differ at most at one place, at which the second one has `n`. -/
structure Alters (d d' : Disk) (l : Location) (n : Option Node) : Prop where
  not_root : l ≠ []
  get? : ∀ P, d'.get? P = if P = l then n else d.get? P

theorem alters_put {d : Disk} {l : Location} (hl : l ≠ []) (n : Node) :
    Alters d (d.put l n) l (some n) := ⟨hl, get?_put d hl n⟩

theorem alters_erase {d : Disk} {l : Location} (hl : l ≠ []) : Alters d (d.erase l) l none :=
  ⟨hl, get?_erase d hl⟩

theorem alters_same {d : Disk} {l : Location} (hl : l ≠ []) {n : Option Node}
    (h : d.get? l = n) : Alters d d l n :=
  ⟨hl, fun P => by split <;> simp_all⟩

namespace Alters

variable {d d₁ d₂ : Disk} {l : Location} {n n₁ : Option Node}

theorem self (h : Alters d d₁ l n) : d₁.get? l = n := by rw [h.get?, if_pos rfl]

theorem other (h : Alters d d₁ l n) {P : Location} (hP : P ≠ l) : d₁.get? P = d.get? P := by
  rw [h.get?, if_neg hP]

theorem trans (h : Alters d d₁ l n₁) (h₁ : Alters d₁ d₂ l n) : Alters d d₂ l n where
  not_root := h.not_root
  get? P := by
    rw [h₁.get?, h.get?]
    split <;> rfl

theorem links (h : Alters d d₁ l n) (hl : ∀ target, d.get? l ≠ some (.link target))
    (hn : ∀ target, n ≠ some (.link target)) : SameLinks d d₁ := by
  intro P target
  rw [h.get?]
  split
  · rename_i e
    rw [e]
    exact ⟨fun e => absurd e (hn target), fun e => absurd e (hl target)⟩
  · exact Iff.rfl

theorem linkless (h : Alters d d₁ l n) (hd : d.Linkless) (hn : ∀ target, n ≠ some (.link target)) :
    d₁.Linkless :=
  (h.links (hd l) hn).linkless hd

end Alters

/-- A regular file with a given content, or a device. -/
def Takes (content : ByteArray) (n : Node) : Prop :=
  n = .sink ∨ ∃ id x, n = .file id content x

theorem Takes.not_link {content : ByteArray} {n : Node} (h : Takes content n) (target : String) :
    some n ≠ some (.link target) := by
  rintro e
  cases e
  rcases h with h | ⟨_, _, h⟩ <;> cases h

theorem write_ok {d d' : Disk} {p : Path} {content : ByteArray} {x : Bool}
    (h : d.write p content x = .ok d') :
    ∃ l n, d.locate .file p = .ok l ∧ Takes content n ∧ Alters d d' l (some n) := by
  unfold write at h
  split at h
  · cases h
  · rename_i l hl
    have hroot {m : Option Node} (hm : d.get? l = m) (hdir : m ≠ some .dir) : l ≠ [] := by
      rintro rfl
      exact hdir (hm ▸ get?_nil d)
    split at h
    · rename_i id _ x' hnode
      cases h
      exact ⟨l, .file id content x', hl, .inr ⟨_, _, rfl⟩, alters_put (hroot hnode (by simp)) _⟩
    · rename_i hnode
      cases h
      exact ⟨l, .sink, hl, .inl rfl, alters_same (hroot hnode (by simp)) hnode⟩
    · cases h
    · rename_i hnode
      cases h
      have hput : Alters d (d.put l (.file d.nextId content x)) l _ :=
        alters_put (hroot hnode (by simp)) _
      exact ⟨l, .file d.nextId content x, hl, .inr ⟨_, _, rfl⟩, hput.not_root, hput.get?⟩

theorem unlink_eq_ok {d d' : Disk} {p : Path} (h : d.unlink p = .ok d') :
    ∃ l, d.locateEntry p = .ok l ∧ d.get? l ≠ none ∧ d.get? l ≠ some .dir ∧ d' = d.erase l := by
  unfold unlink at h
  split at h
  · cases h
  · rename_i l hl
    split at h
    · cases h
    · cases h
    · rename_i hdir hnode
      split at h
      · cases h
      · cases h
        exact ⟨l, hl, by simp [hnode], fun e => hdir (Option.some.inj (hnode.symm.trans e)), rfl⟩

theorem unlink_ok {d d' : Disk} {p : Path} (h : d.unlink p = .ok d') :
    ∃ l, d.locateEntry p = .ok l ∧ Alters d d' l none := by
  obtain ⟨l, hl, -, hdir, rfl⟩ := unlink_eq_ok h
  refine ⟨l, hl, alters_erase ?_⟩
  rintro rfl
  exact hdir (get?_nil d)

/-! ## New directories -/

/-- The second disk has what the first one has, and perhaps more directories. -/
structure Grows (d d' : Disk) : Prop where
  get? : ∀ P, d'.get? P = d.get? P ∨ d.get? P = none ∧ d'.get? P = some .dir
  nextId : d'.nextId = d.nextId
  cwd : d'.cwd = d.cwd

theorem Grows.refl (d : Disk) : Grows d d := ⟨fun _ => .inl rfl, rfl, rfl⟩

theorem Grows.trans {d d₁ d₂ : Disk} (h : Grows d d₁) (h₁ : Grows d₁ d₂) : Grows d d₂ where
  nextId := h₁.nextId.trans h.nextId
  cwd := h₁.cwd.trans h.cwd
  get? P := by
    rcases h.get? P with e | ⟨e, e'⟩
    · rcases h₁.get? P with e₁ | ⟨e₁, e₁'⟩
      · exact .inl (e₁.trans e)
      · exact .inr ⟨e ▸ e₁, e₁'⟩
    · rcases h₁.get? P with e₁ | ⟨e₁, -⟩
      · exact .inr ⟨e, e₁.trans e'⟩
      · rw [e'] at e₁
        cases e₁

theorem Grows.keeps {d d' : Disk} (h : Grows d d') {l : Location} {n : Node}
    (hn : d.get? l = some n) : d'.get? l = some n := by
  rcases h.get? l with e | ⟨e, -⟩
  · rw [e, hn]
  · rw [hn] at e
    cases e

theorem Grows.links {d d' : Disk} (h : Grows d d') : SameLinks d d' := by
  intro P target
  rcases h.get? P with e | ⟨e, e'⟩
  · rw [e]
  · simp [e, e']

theorem grows_makeDir {d d' : Disk} {p : Path} (h : d.makeDir p = .ok d') : Grows d d' := by
  unfold makeDir at h
  split at h
  · cases h
  · rename_i l hl
    split at h
    · cases h
    · rename_i hnode
      cases h
      have hroot : l ≠ [] := by
        rintro rfl
        rw [get?_nil] at hnode
        cases hnode
      refine ⟨fun P => ?_, rfl, rfl⟩
      rw [get?_put d hroot]
      split
      · rename_i e
        exact .inr ⟨e ▸ hnode, rfl⟩
      · exact .inl rfl

/-- What holds of making one directory, at the paths of a kind that parents have as well, holds of
making a directory and those above it. -/
theorem makeDirsFrom_rel {R : Disk → Disk → Prop} {A : Path → Prop} (refl : ∀ d, R d d)
    (trans : ∀ {d d₁ d₂}, R d d₁ → R d₁ d₂ → R d d₂)
    (parent : ∀ p q, A p → p.parent = some q → A q)
    (make : ∀ d d' p, A p → d.makeDir p = .ok d' → R d d') (d : Disk) {p : Path} (hp : A p)
    (fuel : Nat) : R d (d.makeDirsFrom p fuel).2 := by
  induction fuel generalizing p with
  | zero => exact refl d
  | succ fuel ih =>
    unfold makeDirsFrom
    split
    · exact refl d
    · split
      · rename_i hmade
        exact make _ _ _ hp hmade
      · split
        · split
          · exact refl d
          · rename_i q hq
            -- the ancestors are made first, also where making the directory then fails
            have hparent := ih (parent p q hp hq)
            split
            · rename_i hrest
              rw [hrest] at hparent
              exact hparent
            · rename_i hrest
              rw [hrest] at hparent
              split
              · rename_i hmade
                exact trans hparent (make _ _ _ hp hmade)
              · split <;> exact hparent
        · split <;> exact refl d

theorem grows_makeDirs (d : Disk) (p : Path) : Grows d (d.makeDirs p).2 :=
  makeDirsFrom_rel (A := fun _ => True) .refl .trans (fun _ _ _ _ => trivial)
    (fun _ _ _ _ => grows_makeDir) d trivial _

/-! ## What stands at a location and above it -/

/-- What the first disk has at a location and above it, the second one has there as well. -/
def Holds (l : Location) (d d' : Disk) : Prop :=
  ∀ P n, P <+: l → d.get? P = some n → d'.get? P = some n

theorem Holds.refl (l : Location) (d : Disk) : Holds l d d := fun _ _ _ hn => hn

theorem Holds.trans {l : Location} {d d₁ d₂ : Disk} (h : Holds l d d₁) (h₁ : Holds l d₁ d₂) :
    Holds l d d₂ :=
  fun P n hP hn => h₁ P n hP (h P n hP hn)

theorem Alters.holds {d d' : Disk} {m l : Location} {n : Option Node} (h : Alters d d' m n)
    (hm : ¬ m <+: l) : Holds l d d' := by
  intro P n hP hn
  rw [h.other, hn]
  rintro rfl
  exact hm hP

theorem Grows.holds {d d' : Disk} (h : Grows d d') (l : Location) : Holds l d d' :=
  fun _ _ _ hn => h.keeps hn

/-- The links are where they were, and what stood at a location and above it still does. -/
structure Leaves (l : Location) (d d' : Disk) : Prop where
  links : SameLinks d d'
  holds : Holds l d d'

theorem Leaves.refl (l : Location) (d : Disk) : Leaves l d d := ⟨.refl d, .refl l d⟩

theorem Leaves.trans {l : Location} {d d₁ d₂ : Disk} (h : Leaves l d d₁) (h₁ : Leaves l d₁ d₂) :
    Leaves l d d₂ :=
  ⟨h.links.trans h₁.links, h.holds.trans h₁.holds⟩

theorem Grows.leaves {d d' : Disk} (h : Grows d d') (l : Location) : Leaves l d d' :=
  ⟨h.links, h.holds l⟩

theorem Reached.of_holds {d d' : Disk} {l : Location} (h : Reached d l) (hold : Holds l d d') :
    Reached d' l :=
  ⟨h.names, fun P hP hne => hold P .dir hP (h.above P hP hne)⟩

section

variable {d : Disk} {m : Location} (hclear : d.Clear m) (hm : ∀ n ∈ m, IsName n)
include hclear hm

theorem read_pathOf_iff {b : ByteArray} :
    d.read (pathOf m) = .ok b ↔
      checkText (pathOf m).text = .ok () ∧ Reached d m ∧
        ((∃ id x, d.get? m = some (.file id b x)) ∨
          d.get? m = some .sink ∧ b = ByteArray.empty) := by
  unfold read
  constructor
  · intro h
    split at h
    · rename_i hs
      obtain ⟨hc, hr, -, hn⟩ := (stat_pathOf_iff hclear hm).mp hs
      cases h
      exact ⟨hc, hr, .inl ⟨_, _, hn⟩⟩
    · rename_i hs
      obtain ⟨hc, hr, -, hn⟩ := (stat_pathOf_iff hclear hm).mp hs
      cases h
      exact ⟨hc, hr, .inr ⟨hn, rfl⟩⟩
    · cases h
    · cases h
  · rintro ⟨hc, hr, ⟨id, x, hn⟩ | ⟨hn, rfl⟩⟩
    · rw [(stat_pathOf_iff hclear hm).mpr ⟨hc, hr, rfl, hn⟩]
    · rw [(stat_pathOf_iff hclear hm).mpr ⟨hc, hr, rfl, hn⟩]

theorem stat_of_holds {d' : Disk} (hold : Holds m d d') {l : Location} {n : Node}
    (h : d.stat (pathOf m) = .ok (l, n)) : d'.stat (pathOf m) = .ok (l, n) := by
  obtain ⟨hc, hr, rfl, hn⟩ := (stat_pathOf_iff hclear hm).mp h
  have hnode := hold l n (List.prefix_refl l) hn
  have hclear' : d'.Clear l := (hr.of_holds hold).clear fun target e => by
    rw [hnode] at e
    cases e
    exact hclear l target (List.prefix_refl l) hn
  exact (stat_pathOf_iff hclear' hm).mpr ⟨hc, hr.of_holds hold, rfl, hnode⟩

theorem read_of_holds {d' : Disk} (hold : Holds m d d') {b : ByteArray}
    (h : d.read (pathOf m) = .ok b) : d'.read (pathOf m) = .ok b := by
  unfold read at h
  split at h
  · rename_i hs
    rw [read, stat_of_holds hclear hm hold hs]
    exact h
  · rename_i hs
    rw [read, stat_of_holds hclear hm hold hs]
    exact h
  · cases h
  · cases h

end

/-! ## Copies -/

theorem copy_ok {d d' : Disk} (hd : d.Linkless) {source : Path} {t : Location}
    (ht : ∀ n ∈ t, IsName n) (h : d.copy source (pathOf t) = .ok d') :
    ∃ n, (∀ target, some n ≠ some (.link target)) ∧ Alters d d' t (some n) ∧
      ∀ m, (∀ n ∈ m, IsName n) → source = pathOf m → m ≠ t →
        n = .sink ∨ ∃ id b x, n = .file id b x ∧ d.read source = .ok b := by
  unfold copy at h
  split at h
  · cases h
  · rename_i place id content x hsource
    split at h
    · cases h
    · rename_i emptied hempty
      obtain ⟨l, n, hl, htakes, halters⟩ := write_ok hempty
      obtain ⟨hc, hr, rfl⟩ := (locate_pathOf_iff (hd.clear t) ht).mp hl
      have hlinkless := halters.linkless hd htakes.not_link
      split at h
      · cases h
      · rename_i goal hgoal
        obtain ⟨-, -, rfl⟩ := (locate_pathOf_iff (hlinkless.clear _) ht).mp hgoal
        split at h
        · rename_i id' _ _ hnode
          cases h
          refine ⟨.file id' _ x, by simp, halters.trans (alters_put halters.not_root _), ?_⟩
          rintro m hm rfl hne
          obtain ⟨-, -, rfl, hfile⟩ := (stat_pathOf_iff (hd.clear m) hm).mp hsource
          refine .inr ⟨id', content, x, ?_, by rw [read, hsource]⟩
          rw [contentAt, halters.other hne, hfile]
        · rename_i hnode
          cases h
          exact ⟨n, htakes.not_link, halters,
            fun m _ _ _ => .inl (by simpa [halters.self] using hnode)⟩
        · cases h
  · cases h

/-- A copy reads as the original did, but for a target that does not keep what is written to it. -/
theorem read_copy {d d' : Disk} (hd : d.Linkless) {m t : Location} (hm : ∀ n ∈ m, IsName n)
    (ht : ∀ n ∈ t, IsName n) (hne : m ≠ t) (h : d.copy (pathOf m) (pathOf t) = .ok d')
    {b : ByteArray} (hb : d'.read (pathOf t) = .ok b) :
    d.read (pathOf m) = .ok b ∨ b = ByteArray.empty := by
  obtain ⟨n, hlink, halters, hcontent⟩ := copy_ok hd ht h
  obtain ⟨-, -, hnode⟩ := (read_pathOf_iff ((halters.linkless hd hlink).clear t) ht).mp hb
  rw [halters.self] at hnode
  rcases hcontent m hm rfl hne with rfl | ⟨id, b', x, rfl, hread⟩
  · rcases hnode with ⟨_, _, e⟩ | ⟨-, hempty⟩
    · cases e
    · exact .inr hempty
  · rcases hnode with ⟨_, _, e⟩ | ⟨e, -⟩
    · cases e
      exact .inl hread
    · cases e

/-! ## Renames -/

section

variable {α β : Type} [DecidableEq α] {f : α → α} {k k' : α}

theorem valueAt_mapKeys {es : List (α × β)} (h : ∀ e ∈ es, f e.1 = k ↔ e.1 = k') :
    valueAt k (es.map fun e => (f e.1, e.2)) = valueAt k' es := by
  induction es with
  | nil => rfl
  | cons e es ih =>
    have he := h e List.mem_cons_self
    have hes := ih fun e' he' => h e' (List.mem_cons_of_mem _ he')
    by_cases hk : e.1 = k'
    · simp [valueAt, hk, hk ▸ he.mpr hk]
    · simp [valueAt, hk, mt he.mp hk, hes]

theorem valueAt_mapKeys_some {es : List (α × β)} {v : β}
    (h : valueAt k (es.map fun e => (f e.1, e.2)) = some v) :
    ∃ j, f j = k ∧ valueAt j es = some v := by
  induction es with
  | nil => cases h
  | cons e es ih =>
    by_cases hk : f e.1 = k
    · refine ⟨e.1, hk, ?_⟩
      simpa [valueAt, hk] using h
    · obtain ⟨j, hj, hv⟩ := ih (by simpa [valueAt, hk] using h)
      refine ⟨j, hj, ?_⟩
      have hne : e.1 ≠ j := fun hej => hk (by rw [hej, hj])
      simpa [valueAt, hne] using hv

end

/-- Where an entry comes to stand when what is at and below `s` is moved to `t`. -/
def movedTo (s t k : Location) : Location :=
  if s.isPrefixOf k then t ++ k.drop s.length else k

theorem moveTree_entries (d : Disk) (s t : Location) :
    (d.moveTree s t).entries = d.entries.map fun e => (movedTo s t e.1, e.2) := by
  refine List.map_congr_left fun e _ => ?_
  unfold movedTo
  split <;> rfl

/-- What stands anywhere after a move has stood there before, or at the source or below. -/
theorem get?_moveTree_some {d : Disk} {s t l : Location} (hs : s ≠ []) {n : Node}
    (h : (d.moveTree s t).get? l = some n) :
    n = .dir ∨ ∃ k, d.get? k = some n ∧ (k = l ∨ s <+: k) := by
  unfold get? at h
  split at h
  · cases h
    exact .inl rfl
  · rename_i hl
    rw [moveTree_entries] at h
    obtain ⟨k, hk, hv⟩ := valueAt_mapKeys_some h
    have hroot : k ≠ [] := by
      rintro rfl
      cases s with
      | nil => exact hs rfl
      | cons a as => exact hl hk.symm
    refine .inr ⟨k, by rw [get?, if_neg hroot, hv], ?_⟩
    unfold movedTo at hk
    split at hk
    · rename_i hsk
      exact .inr (List.isPrefixOf_iff_prefix.mp hsk)
    · exact .inl hk

theorem get?_moveTree_other {d : Disk} {s t l : Location} (hs : ¬ s <+: l) (ht : ¬ t <+: l) :
    (d.moveTree s t).get? l = d.get? l := by
  unfold get?
  split
  · rfl
  · rw [moveTree_entries]
    refine valueAt_mapKeys fun e _ => ?_
    unfold movedTo
    split
    · rename_i hse
      constructor
      · rintro rfl
        exact absurd (List.prefix_append t _) ht
      · intro he
        exact absurd (he ▸ List.isPrefixOf_iff_prefix.mp hse) hs
    · exact Iff.rfl

theorem get?_moveTree_target {d : Disk} {s t : Location} (hs : s ≠ []) (ht : t ≠ [])
    (rest : Location) (hfree : ∀ e ∈ d.entries, e.1 ≠ t ++ rest) :
    (d.moveTree s t).get? (t ++ rest) = d.get? (s ++ rest) := by
  unfold get?
  rw [if_neg (List.append_ne_nil_of_left_ne_nil ht rest),
    if_neg (List.append_ne_nil_of_left_ne_nil hs rest), moveTree_entries]
  refine valueAt_mapKeys fun e he => ?_
  unfold movedTo
  split
  · rename_i hse
    obtain ⟨more, hmore⟩ := List.isPrefixOf_iff_prefix.mp hse
    rw [← hmore, List.drop_left, List.append_cancel_left_eq, List.append_cancel_left_eq]
  · rename_i hse
    constructor
    · intro h
      exact absurd h (hfree e he)
    · intro h
      exact absurd (List.isPrefixOf_iff_prefix.mpr (h ▸ List.prefix_append _ _)) hse

/-- Nothing is left at the source of a move or below it, if that is not the target. -/
theorem get?_moveTree_source {d : Disk} {s t l : Location} (hs : s ≠ []) (hsl : s <+: l)
    (htl : ¬ t <+: l) : (d.moveTree s t).get? l = none := by
  have hroot : l ≠ [] := by
    rintro rfl
    exact hs (List.prefix_nil.mp hsl)
  unfold get?
  rw [if_neg hroot, moveTree_entries]
  cases hv : valueAt l (d.entries.map fun e => (movedTo s t e.1, e.2)) with
  | none => rfl
  | some n =>
    obtain ⟨k, hk, -⟩ := valueAt_mapKeys_some hv
    unfold movedTo at hk
    split at hk
    · exact absurd (hk ▸ List.prefix_append t _) htl
    · rename_i hsk
      exact absurd (List.isPrefixOf_iff_prefix.mpr (hk ▸ hsl)) hsk

/-- The second disk has at one place what the first one has at another, which is empty now. -/
structure Moves (d d' : Disk) (s t : Location) : Prop where
  target : d'.get? t = d.get? s
  other : ∀ P, ¬ s <+: P → ¬ t <+: P → d'.get? P = d.get? P
  links : ∀ P target, d'.get? P = some (.link target) →
    ∃ k, d.get? k = some (.link target) ∧ (k = P ∨ s <+: k)

theorem Moves.linkless {d d' : Disk} {s t : Location} (h : Moves d d' s t) (hd : d.Linkless) :
    d'.Linkless := by
  intro P target hn
  obtain ⟨k, hk, -⟩ := h.links P target hn
  exact hd k target hk

/-- A move takes no links along if there are none at its ends. -/
theorem Moves.sameLinks {d d' : Disk} {s t : Location} (h : Moves d d' s t) (hs : d.Straight s)
    (ht : d.Straight t) : SameLinks d d' := by
  refine fun P target => ⟨fun hn => ?_, fun hn => ?_⟩
  · obtain ⟨k, hk, rfl | hsk⟩ := h.links P target hn
    · exact hk
    · exact absurd hk (hs k target (.inr hsk))
  · rwa [h.other P (fun hP => hs P target (.inr hP) hn) fun hP => ht P target (.inr hP) hn]

theorem Moves.holds {d d' : Disk} {s t l : Location} (h : Moves d d' s t) (hs : ¬ s <+: l)
    (ht : ¬ t <+: l) : Holds l d d' := by
  intro P n hP hn
  rw [h.other P (fun hsP => hs (hsP.trans hP)) fun htP => ht (htP.trans hP), hn]

theorem checkMove_ok {d : Disk} {source target : Path} {s t : Location}
    (h : d.checkMove source target = .ok (s, t)) :
    d.locateEntry source = .ok s ∧ d.locateEntry target = .ok t ∧
      (s = t ∨ ¬ s <+: t ∧ ¬ t <+: s ∧ ∃ n, d.replaces n t = .ok ()) := by
  unfold checkMove at h
  cases hs : d.locateEntry source with
  | error e => rw [hs] at h; cases h
  | ok s' =>
    cases ht : d.locateEntry target with
    | error e => rw [hs, ht] at h; cases h
    | ok t' =>
      simp only [hs, ht, bind, Except.bind] at h
      split at h
      · cases h
      · split at h
        · cases h
        · cases h
        · split at h
          · cases h
          · split at h
            · rename_i e
              cases h
              exact ⟨rfl, rfl, .inl e⟩
            · split at h
              · cases h
              · rename_i hst
                split at h
                · cases h
                · rename_i hts
                  split at h
                  · cases h
                  · rename_i hreplaces
                    cases h
                    refine ⟨rfl, rfl, .inr ⟨fun e => ?_, fun e => ?_, _, hreplaces⟩⟩
                    · exact hst (List.isPrefixOf_iff_prefix.mpr e)
                    · exact hts (List.isPrefixOf_iff_prefix.mpr e)

theorem rename_ok {d d' : Disk} {source target : Path} (h : d.rename source target = .ok d') :
    ∃ s t, d.locateEntry source = .ok s ∧ d.locateEntry target = .ok t ∧
      (s ≠ t → Moves d d' s t) := by
  unfold rename at h
  split at h
  · cases h
  · rename_i s t hmove
    obtain ⟨hs, ht, hapart⟩ := checkMove_ok hmove
    refine ⟨s, t, hs, ht, fun hne => ?_⟩
    rw [if_neg hne] at h
    cases h
    obtain ⟨hst, hts, -⟩ := hapart.resolve_left hne
    have hsroot : s ≠ [] := by
      rintro rfl
      exact hst List.nil_prefix
    have htroot : t ≠ [] := by
      rintro rfl
      exact hts List.nil_prefix
    have herase : Alters d (d.erase t) t none := alters_erase htroot
    refine ⟨?_, fun P hsP htP => ?_, fun P target hP => ?_⟩
    · have hfree : ∀ e ∈ (d.erase t).entries, e.1 ≠ t ++ [] := fun e he => by
        simpa using (List.mem_filter.mp he).2
      have htarget := get?_moveTree_target hsroot htroot [] hfree
      rwa [List.append_nil, List.append_nil, herase.other hne] at htarget
    · rw [get?_moveTree_other hsP htP, herase.other]
      rintro rfl
      exact htP (List.prefix_refl _)
    · obtain ⟨k, hk, hwhere⟩ := (get?_moveTree_some hsroot hP).resolve_left nofun
      rw [herase.get?] at hk
      split at hk
      · cases hk
      · exact ⟨k, hk, hwhere⟩

section

variable {d d' : Disk} {s t : Location} (hs : ∀ n ∈ s, IsName n) (ht : ∀ n ∈ t, IsName n)
  (hne : s ≠ t) (h : d.rename (pathOf s) (pathOf t) = .ok d')
include hs ht hne h

/-- If no links are on the way, the places are those that the paths are written from. -/
theorem moves_of_rename (hsclear : d.Clear s) (htclear : d.Clear t) :
    checkText (pathOf s).text = .ok () ∧ Reached d s ∧ Moves d d' s t := by
  obtain ⟨s', t', hs', ht', hmoves⟩ := rename_ok h
  rw [locateEntry_pathOf hs] at hs'
  rw [locateEntry_pathOf ht] at ht'
  obtain ⟨hcheck, hreached, rfl⟩ := (locate_pathOf_iff hsclear hs).mp hs'
  obtain ⟨-, -, rfl⟩ := (locate_pathOf_iff htclear ht).mp ht'
  exact ⟨hcheck, hreached, hmoves hne⟩

theorem read_rename (hd : d.Linkless) {b : ByteArray} (hb : d'.read (pathOf t) = .ok b) :
    d.read (pathOf s) = .ok b := by
  obtain ⟨hcheck, hreached, hmoves⟩ := moves_of_rename hs ht hne h (hd.clear s) (hd.clear t)
  obtain ⟨-, -, hnode⟩ := (read_pathOf_iff ((hmoves.linkless hd).clear t) ht).mp hb
  rw [hmoves.target] at hnode
  exact (read_pathOf_iff (hd.clear s) hs).mpr ⟨hcheck, hreached, hnode⟩

end

/-! ## Sparing a file -/

/-- If the first disk has no links, the second one has none either, and a path that leads to a file
still leads to the same bytes. -/
def Spares (p : Path) (d d' : Disk) : Prop :=
  d.Linkless → d'.Linkless ∧ ∀ b, d.read p = .ok b → d'.read p = .ok b

theorem Spares.refl (p : Path) (d : Disk) : Spares p d d := fun hd => ⟨hd, fun _ h => h⟩

theorem Spares.trans {p : Path} {d d₁ d₂ : Disk} (h : Spares p d d₁) (h₁ : Spares p d₁ d₂) :
    Spares p d d₂ := by
  intro hd
  obtain ⟨hd₁, hread⟩ := h hd
  obtain ⟨hd₂, hread₁⟩ := h₁ hd₁
  exact ⟨hd₂, fun b hb => hread₁ b (hread b hb)⟩

theorem spares_of_holds {l : Location} (hl : ∀ n ∈ l, IsName n) {d d' : Disk}
    (h : d.Linkless → d'.Linkless ∧ Holds l d d') : Spares (pathOf l) d d' := by
  intro hd
  obtain ⟨hd', hold⟩ := h hd
  exact ⟨hd', fun b hb => read_of_holds (hd.clear l) hl hold hb⟩

theorem spares_write {l m : Location} (hl : ∀ n ∈ l, IsName n) (hm : ∀ n ∈ m, IsName n)
    (hml : ¬ m <+: l) {d d' : Disk} {content : ByteArray} {x : Bool}
    (h : d.write (pathOf m) content x = .ok d') : Spares (pathOf l) d d' := by
  refine spares_of_holds hl fun hd => ?_
  obtain ⟨k, n, hk, htakes, halters⟩ := write_ok h
  obtain ⟨-, -, rfl⟩ := (locate_pathOf_iff (hd.clear m) hm).mp hk
  exact ⟨halters.linkless hd htakes.not_link, halters.holds hml⟩

theorem spares_unlink {l m : Location} (hl : ∀ n ∈ l, IsName n) (hm : ∀ n ∈ m, IsName n)
    (hml : ¬ m <+: l) {d d' : Disk} (h : d.unlink (pathOf m) = .ok d') :
    Spares (pathOf l) d d' := by
  refine spares_of_holds hl fun hd => ?_
  obtain ⟨k, hk, halters⟩ := unlink_ok h
  rw [locateEntry_pathOf hm] at hk
  obtain ⟨-, -, rfl⟩ := (locate_pathOf_iff (hd.clear m) hm).mp hk
  exact ⟨halters.linkless hd (by simp), halters.holds hml⟩

theorem spares_copy {l m : Location} (hl : ∀ n ∈ l, IsName n) (hm : ∀ n ∈ m, IsName n)
    (hml : ¬ m <+: l) {d d' : Disk} {source : Path} (h : d.copy source (pathOf m) = .ok d') :
    Spares (pathOf l) d d' := by
  refine spares_of_holds hl fun hd => ?_
  obtain ⟨n, hlink, halters, -⟩ := copy_ok hd hm h
  exact ⟨halters.linkless hd hlink, halters.holds hml⟩

theorem spares_makeDirs {l : Location} (hl : ∀ n ∈ l, IsName n) (d : Disk) (p : Path) :
    Spares (pathOf l) d (d.makeDirs p).2 :=
  spares_of_holds hl fun hd =>
    ⟨(grows_makeDirs d p).links.linkless hd, (grows_makeDirs d p).holds l⟩

theorem spares_rename {l s t : Location} (hl : ∀ n ∈ l, IsName n) (hs : ∀ n ∈ s, IsName n)
    (ht : ∀ n ∈ t, IsName n) (hsl : ¬ s <+: l) (htl : ¬ t <+: l) (hne : s ≠ t) {d d' : Disk}
    (h : d.rename (pathOf s) (pathOf t) = .ok d') : Spares (pathOf l) d d' := by
  refine spares_of_holds hl fun hd => ?_
  obtain ⟨-, -, hmoves⟩ := moves_of_rename hs ht hne h (hd.clear s) (hd.clear t)
  exact ⟨hmoves.linkless hd, hmoves.holds hsl htl⟩

end Whittle.Disk
