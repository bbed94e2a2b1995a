import Whittle.Criterion
import Whittle.Proofs.Text.Lacking

/-!
# What criteria are read

`Criterion.readAll` answers the criteria of the lines that hold one (`readAll_eq`), and the name of
each is an identifier. `distinctNames` lists the names by their first occurrences.
-/

namespace Whittle.Criterion

open Text

/-- The criteria of the lines that hold one. -/
def wellFormed (s : String) : List Criterion := (readLines s).filterMap Except.toOption

theorem keepGood_eq (rs : List (Except Fault Criterion)) :
    ∀ w : World, (keepGood rs w).1 = .ok (rs.filterMap Except.toOption) := by
  induction rs with
  | nil => intro w; rfl
  | cons r rs ih =>
    intro w
    cases r with
    | ok c =>
      have hrest := ih w
      simp only [keepGood, bind, ExceptT.bind, ExceptT.mk, StateT.bind]
      cases hk : keepGood rs w with
      | mk result w' =>
        rw [hk] at hrest
        simp only at hrest
        subst hrest
        rfl
    | error e => exact ih _

theorem readAll_eq (s : String) (w : World) : (readAll s w).1 = .ok (wellFormed s) :=
  keepGood_eq (readLines s) w

/-! ## Names -/

theorem isIdentifier_of_readChars {cs : List Char} {c : Criterion} (h : readChars cs = some c) :
    isIdentifier c.name.toList = true := by
  unfold readChars at h
  simp only [bind, Option.bind_eq_some_iff] at h
  obtain ⟨⟨before, behind⟩, -, line, -, h⟩ := h
  split at h
  · cases h
  · rename_i hname
    cases h
    rw [String.toList_ofList]
    simpa using fun he => hname (.inr he)

theorem isIdentifier_of_mem_wellFormed {s : String} {c : Criterion} (h : c ∈ wellFormed s) :
    isIdentifier c.name.toList = true := by
  obtain ⟨r, hr, hrc⟩ := List.mem_filterMap.mp h
  obtain ⟨l, -, rfl⟩ := List.mem_map.mp hr
  unfold read at hrc
  split at hrc
  · rename_i d hd
    cases hrc
    exact isIdentifier_of_readChars hd
  · cases hrc

theorem isIdentifier_of_mem_readAll {s : String} {w : World} {cs : List Criterion}
    (h : (readAll s w).1 = .ok cs) {c : Criterion} (hc : c ∈ cs) :
    isIdentifier c.name.toList = true := by
  rw [readAll_eq] at h
  cases h
  exact isIdentifier_of_mem_wellFormed hc

/-- An identifier consists of letters, digits and underscores. -/
theorem lacks_of_isIdentifier {c : Char} (hc : continuesIdentifier c = false) {name : String}
    (h : isIdentifier name.toList = true) : Lacks c name := by
  intro hm
  cases hn : name.toList with
  | nil => rw [hn] at hm; cases hm
  | cons d ds =>
    rw [hn] at h hm
    simp only [isIdentifier, Bool.and_eq_true, List.all_eq_true] at h
    have hstart : continuesIdentifier d = true := by
      have := h.1
      simp only [startsIdentifier, Bool.or_eq_true, decide_eq_true_eq] at this
      simp only [continuesIdentifier, Bool.or_eq_true, decide_eq_true_eq]
      exact this.imp_left .inl
    have : continuesIdentifier c = true := by
      rcases List.mem_cons.mp hm with rfl | hm
      · exact hstart
      · exact h.2 c hm
    rw [hc] at this
    cases this

/-! ## Distinct names -/

/-- The values of a list, each once, in the order in which they first occur. -/
structure FirstOccurrences (distinct all : List String) : Prop where
  same : ∀ v, v ∈ distinct ↔ v ∈ all
  ordered : distinct.Pairwise fun u v => all.idxOf u < all.idxOf v

theorem FirstOccurrences.nodup {distinct all : List String} (h : FirstOccurrences distinct all) :
    distinct.Nodup :=
  h.ordered.imp fun hlt e => by rw [e] at hlt; exact Nat.lt_irrefl _ hlt

theorem idxOf_append_of_mem {v x : String} {all : List String} (h : v ∈ all) :
    (all ++ [x]).idxOf v = all.idxOf v := by
  rw [List.idxOf_append, if_pos h]

theorem FirstOccurrences.ordered_append {distinct all : List String} (x : String)
    (h : FirstOccurrences distinct all) :
    distinct.Pairwise fun u v => (all ++ [x]).idxOf u < (all ++ [x]).idxOf v := by
  refine h.ordered.imp_of_mem fun {u v} hu hv hlt => ?_
  rwa [idxOf_append_of_mem ((h.same u).mp hu), idxOf_append_of_mem ((h.same v).mp hv)]

theorem FirstOccurrences.skip {distinct all : List String} {x : String}
    (h : FirstOccurrences distinct all) (hx : x ∈ distinct) :
    FirstOccurrences distinct (all ++ [x]) where
  same v := by
    rw [h.same, List.mem_append, List.mem_singleton]
    refine ⟨.inl, fun hv => hv.elim id ?_⟩
    rintro rfl
    exact (h.same v).mp hx
  ordered := h.ordered_append x

theorem FirstOccurrences.push {distinct all : List String} {x : String}
    (h : FirstOccurrences distinct all) (hx : x ∉ distinct) :
    FirstOccurrences (distinct ++ [x]) (all ++ [x]) where
  same v := by rw [List.mem_append, List.mem_append, h.same]
  ordered := by
    have hnew : x ∉ all := fun hm => hx ((h.same x).mpr hm)
    refine List.pairwise_append.mpr ⟨h.ordered_append x, List.pairwise_singleton _ _, ?_⟩
    intro u hu v hv
    rw [List.mem_singleton.mp hv, idxOf_append_of_mem ((h.same u).mp hu), List.idxOf_append,
      if_neg hnew]
    have := List.idxOf_lt_length_iff.mpr ((h.same u).mp hu)
    omega

theorem firstOccurrences_distinctNames (cs : List Criterion) :
    FirstOccurrences (distinctNames cs) (cs.map name) := by
  -- the accumulator holds the names of the criteria that were passed
  suffices h : ∀ (cs : List Criterion) (distinct all : List String),
      FirstOccurrences distinct all →
      FirstOccurrences
        (cs.foldl (fun names c => if c.name ∈ names then names else names ++ [c.name]) distinct)
        (all ++ cs.map name) from
    h cs [] [] ⟨fun _ => Iff.rfl, List.Pairwise.nil⟩
  intro cs
  induction cs with
  | nil => intro distinct all h; simpa using h
  | cons c cs ih =>
    intro distinct all h
    rw [List.foldl_cons, List.map_cons, List.append_cons all]
    split
    · rename_i hc
      exact ih _ _ (h.skip hc)
    · rename_i hc
      exact ih _ _ (h.push hc)

end Whittle.Criterion
