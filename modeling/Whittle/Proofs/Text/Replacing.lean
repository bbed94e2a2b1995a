import Mathlib.Data.List.Basic
import Whittle.Text.Replace

/-!
# What replacing does to a text

`replaceFrom` replaces a pattern where it stands (`replaceFrom_hit`) and keeps what stands between
(`replaceFrom_pass`), on both sides of a character that the pattern does not have alike
(`replaceFrom_fence`). `occurrences` counts where a pattern stands; one whose first character is not
found again in it never overlaps itself, so each occurrence is replaced (`length_replaceFrom`).
-/

namespace Whittle.Text

/-- How many occurrences of a pattern start in a text that `rest` follows. -/
def startsIn (pattern : List Char) : List Char → List Char → Nat
  | [], _ => 0
  | c :: cs, rest =>
    (if pattern.isPrefixOf (c :: cs ++ rest) then 1 else 0) + startsIn pattern cs rest

/-- How often a pattern stands in a text. -/
def occurrences (pattern cs : List Char) : Nat := startsIn pattern cs []

variable {pattern replacement : List Char}

theorem startsIn_append (v rest more : List Char) :
    startsIn pattern (v ++ rest) more =
      startsIn pattern v (rest ++ more) + startsIn pattern rest more := by
  induction v with
  | nil => simp [startsIn]
  | cons c cs ih =>
    rw [List.cons_append, startsIn, startsIn, ih, List.cons_append, List.cons_append,
      List.append_assoc]
    omega

theorem occurrences_append (v rest : List Char) :
    occurrences pattern (v ++ rest) = startsIn pattern v rest + occurrences pattern rest := by
  rw [occurrences, startsIn_append, List.append_nil]
  rfl

/-- None starts where no suffix has the pattern in front. -/
theorem startsIn_eq_zero {v rest : List Char}
    (h : ∀ s, s <:+ v → s ≠ [] → ¬ pattern <+: s ++ rest) : startsIn pattern v rest = 0 := by
  induction v with
  | nil => rfl
  | cons c cs ih =>
    have hhere := h (c :: cs) (List.suffix_refl _) (List.cons_ne_nil c cs)
    have hlater := ih fun s hs => h s (hs.trans (List.suffix_cons c cs))
    rw [startsIn, hlater, if_neg (by rwa [List.isPrefixOf_iff_prefix])]

theorem startsIn_of_not_mem {o : Char} {q v rest : List Char} (hv : o ∉ v) :
    startsIn (o :: q) v rest = 0 := by
  refine startsIn_eq_zero fun s hs hne hstarts => ?_
  cases s with
  | nil => exact hne rfl
  | cons c cs =>
    rw [List.cons_append, List.cons_prefix_cons] at hstarts
    exact hv (hstarts.1 ▸ hs.subset List.mem_cons_self)

/-! ## Scanning -/

theorem replaceFrom_drop (n : Nat) (cs : List Char) :
    replaceFrom pattern replacement n cs = replaceFrom pattern replacement 0 (cs.drop n) := by
  induction cs generalizing n with
  | nil => rw [List.drop_nil]; cases n <;> rfl
  | cons c cs ih =>
    cases n with
    | zero => rfl
    | succ n => rw [replaceFrom, List.drop_succ_cons, ih]

theorem replaceFrom_hit (hne : pattern ≠ []) (cs : List Char) :
    replaceFrom pattern replacement 0 (pattern ++ cs) =
      replacement ++ replaceFrom pattern replacement 0 cs := by
  cases pattern with
  | nil => exact absurd rfl hne
  | cons o q =>
    have hstarts : (o :: q).isPrefixOf (o :: (q ++ cs)) = true :=
      List.isPrefixOf_iff_prefix.mpr (List.prefix_append (o :: q) cs)
    rw [List.cons_append, replaceFrom, if_pos hstarts, replaceFrom_drop]
    simp

theorem replaceFrom_miss {c : Char} {cs : List Char} (h : ¬ pattern <+: c :: cs) :
    replaceFrom pattern replacement 0 (c :: cs) =
      c :: replaceFrom pattern replacement 0 cs := by
  rw [replaceFrom, if_neg (by rwa [List.isPrefixOf_iff_prefix])]

/-- A part of a text in which no occurrence starts is kept. -/
theorem replaceFrom_pass {v rest : List Char} (h : startsIn pattern v rest = 0) :
    replaceFrom pattern replacement 0 (v ++ rest) =
      v ++ replaceFrom pattern replacement 0 rest := by
  induction v with
  | nil => rfl
  | cons c cs ih =>
    rw [startsIn] at h
    have hmiss : ¬ pattern <+: c :: cs ++ rest := by
      intro hstarts
      rw [if_pos (List.isPrefixOf_iff_prefix.mpr hstarts)] at h
      omega
    rw [List.cons_append] at hmiss
    rw [List.cons_append, replaceFrom_miss hmiss, ih (by omega), List.cons_append]

/-- An occurrence does not reach over a character that the pattern does not have. -/
theorem prefix_of_fence {d : Char} (hd : d ∉ pattern) {xs ys : List Char}
    (h : pattern <+: xs ++ d :: ys) : pattern <+: xs := by
  rcases List.prefix_or_prefix_of_prefix h (List.prefix_append xs (d :: ys)) with h' | h'
  · exact h'
  · obtain ⟨rest, rfl⟩ := h'
    rw [List.prefix_append_right_inj] at h
    cases rest with
    | nil => simp
    | cons c cs =>
      rw [List.cons_prefix_cons] at h
      exact absurd (h.1 ▸ List.mem_append_right xs List.mem_cons_self) hd

theorem replaceFrom_fence {d : Char} (hd : d ∉ pattern) (hne : pattern ≠ [])
    (xs ys : List Char) :
    replaceFrom pattern replacement 0 (xs ++ d :: ys) =
      replaceFrom pattern replacement 0 xs ++ d :: replaceFrom pattern replacement 0 ys := by
  induction hn : xs.length using Nat.strongRecOn generalizing xs with
  | _ n ih =>
    cases xs with
    | nil =>
      refine replaceFrom_miss fun h => ?_
      have hempty : pattern <+: [] := prefix_of_fence hd h
      exact hne (List.prefix_nil.mp hempty)
    | cons c cs =>
      subst hn
      by_cases h : pattern <+: c :: cs
      · obtain ⟨rest, hrest⟩ := h
        have hshorter : rest.length < (c :: cs).length := by
          have := List.length_pos_iff.mpr hne
          rw [← hrest, List.length_append]
          omega
        rw [← hrest, List.append_assoc, replaceFrom_hit hne, replaceFrom_hit hne,
          ih _ hshorter rest rfl, List.append_assoc]
      · have hmiss : ¬ pattern <+: c :: cs ++ d :: ys := fun h' => h (prefix_of_fence hd h')
        rw [List.cons_append] at hmiss
        rw [List.cons_append, replaceFrom_miss hmiss, replaceFrom_miss h,
          ih _ (Nat.lt_succ_self _) cs rfl, List.cons_append]

/-! ## Counting -/

section

variable {o : Char} {q : List Char} (ho : o ∉ q)
include ho

theorem startsIn_self (rest : List Char) : startsIn (o :: q) (o :: q) rest = 1 := by
  have hstarts : (o :: q).isPrefixOf (o :: q ++ rest) = true :=
    List.isPrefixOf_iff_prefix.mpr (List.prefix_append _ _)
  rw [startsIn, if_pos hstarts, startsIn_of_not_mem ho]

/-- Each occurrence is exchanged for the replacement. -/
theorem length_replaceFrom (cs : List Char) :
    (replaceFrom (o :: q) replacement 0 cs).length + occurrences (o :: q) cs * (o :: q).length =
      cs.length + occurrences (o :: q) cs * replacement.length := by
  induction hn : cs.length using Nat.strongRecOn generalizing cs with
  | _ n ih =>
    cases cs with
    | nil => subst hn; simp [replaceFrom, occurrences, startsIn]
    | cons c cs =>
      by_cases h : o :: q <+: c :: cs
      · obtain ⟨rest, hrest⟩ := h
        have hlength : (o :: q).length + rest.length = n := by
          rw [← hn, ← hrest, List.length_append]
        have hrec := ih rest.length (by rw [List.length_cons] at hlength; omega) rest rfl
        rw [← hrest, occurrences_append, startsIn_self ho, replaceFrom_hit (List.cons_ne_nil o q),
          List.length_append, Nat.add_mul, Nat.add_mul, Nat.one_mul, Nat.one_mul]
        omega
      · have hcount : occurrences (o :: q) (c :: cs) = occurrences (o :: q) cs := by
          have hnone : ¬ (o :: q).isPrefixOf (c :: cs ++ []) = true := by
            rwa [List.append_nil, List.isPrefixOf_iff_prefix]
          rw [occurrences, startsIn, if_neg hnone, Nat.zero_add]
          rfl
        have hrec := ih cs.length (by rw [← hn]; exact Nat.lt_succ_self _) cs rfl
        rw [replaceFrom_miss h, hcount, List.length_cons]
        rw [List.length_cons] at hn
        omega

end

theorem replaceFrom_one (pattern : Char) (replacement cs : List Char) :
    replaceFrom [pattern] replacement 0 cs =
      cs.flatMap fun c => if c = pattern then replacement else [c] := by
  induction cs with
  | nil => rfl
  | cons c cs ih =>
    rw [replaceFrom, List.flatMap_cons]
    by_cases h : c = pattern
    · simp [h, ih]
    · simp [h, Ne.symm h, ih]

end Whittle.Text
