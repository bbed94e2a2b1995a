import Whittle.Text.Lines

/-!
# Lines put together and taken apart

`lines_joinLines`: the lines of a text made by `joinLines` are the lines it was made from. A
carriage return at the end of a line is lost on the way, because the line feed behind it makes it
part of the end of the line (`chomp`).
-/

namespace Whittle.Text

def dropReturn : List Char → List Char
  | [] => []
  | c :: cs => if c = '\r' ∧ cs = [] then [] else c :: dropReturn cs

/-- A line without a carriage return at its end. -/
def chomp (l : String) : String := String.ofList (dropReturn l.toList)

/-- The line of a number, counted from one. -/
def lineAt (s : String) (n : Nat) : Option String :=
  if n = 0 then none else (lines s)[n - 1]?

theorem lineAt_succ (s : String) (n : Nat) : lineAt s (n + 1) = (lines s)[n]? := by
  simp [lineAt]

theorem dropReturn_of_not_mem {l : List Char} (h : '\r' ∉ l) : dropReturn l = l := by
  induction l with
  | nil => rfl
  | cons c cs ih =>
    have hc : c ≠ '\r' := fun e => h (e ▸ List.mem_cons_self)
    have hcs : '\r' ∉ cs := fun m => h (List.mem_cons_of_mem _ m)
    simp [dropReturn, hc, ih hcs]

/-- At most one carriage return is dropped, and it stands at the end. -/
theorem dropReturn_cases (l : List Char) : dropReturn l = l ∨ dropReturn l ++ ['\r'] = l := by
  induction l with
  | nil => exact .inl rfl
  | cons c cs ih =>
    rw [dropReturn]
    split
    · rename_i h
      rw [h.1, h.2]
      exact .inr rfl
    · exact ih.imp (congrArg (c :: ·)) (congrArg (c :: ·))

theorem chomp_of_not_mem {l : String} (h : '\r' ∉ l.toList) : chomp l = l := by
  rw [chomp, dropReturn_of_not_mem h, String.ofList_toList]

theorem newline_not_mem_lineChars (cs : List Char) : ∀ l ∈ lineChars cs, '\n' ∉ l := by
  induction cs with
  | nil => intro l hl; cases hl
  | cons c cs ih =>
    intro l hl
    unfold lineChars at hl
    split at hl
    · rcases List.mem_cons.mp hl with rfl | hl
      · exact List.not_mem_nil
      · exact ih l hl
    · rename_i hc
      split at hl
      · exact ih l hl
      · split at hl
        · rw [List.mem_singleton.mp hl, List.mem_singleton]
          exact fun e => hc e.symm
        · rename_i k ks hk
          rw [hk] at ih
          rcases List.mem_cons.mp hl with rfl | hl
          · intro hm
            rcases List.mem_cons.mp hm with e | hm
            · exact hc e.symm
            · exact ih k List.mem_cons_self hm
          · exact ih l (List.mem_cons_of_mem _ hl)

theorem newline_not_mem_lines (s : String) : ∀ l ∈ lines s, '\n' ∉ l.toList := by
  intro l hl
  obtain ⟨cs, hcs, rfl⟩ := List.mem_map.mp hl
  rw [String.toList_ofList]
  exact newline_not_mem_lineChars s.toList cs hcs

theorem lineChars_append_newline {l : List Char} (h : '\n' ∉ l) (rest : List Char) :
    lineChars (l ++ '\n' :: rest) = dropReturn l :: lineChars rest := by
  induction l with
  | nil => simp [lineChars, dropReturn]
  | cons c cs ih =>
    have hc : c ≠ '\n' := fun e => h (e ▸ List.mem_cons_self)
    have hcs : '\n' ∉ cs := fun m => h (List.mem_cons_of_mem _ m)
    rw [List.cons_append, lineChars, if_neg hc, ih hcs, dropReturn]
    -- only in front of the line feed does a carriage return belong to the end of the line
    cases cs with
    | nil => by_cases hr : c = '\r' <;> simp [hr, dropReturn]
    | cons d ds =>
      have hd : d ≠ '\n' := fun e => hcs (e ▸ List.mem_cons_self)
      simp [hd]

/-- What stands behind the last line feed is a line, unless it is empty. -/
theorem lineChars_of_not_mem {l : List Char} (h : '\n' ∉ l) (hne : l ≠ []) :
    lineChars l = [l] := by
  induction l with
  | nil => exact absurd rfl hne
  | cons c cs ih =>
    have hc : c ≠ '\n' := fun e => h (e ▸ List.mem_cons_self)
    have hcs : '\n' ∉ cs := fun m => h (List.mem_cons_of_mem _ m)
    have hhead : cs.head? ≠ some '\n' := fun e => hcs (List.mem_of_head? e)
    rw [lineChars, if_neg hc, if_neg (fun e => hhead e.2)]
    cases cs with
    | nil => rfl
    | cons d ds => rw [ih hcs (List.cons_ne_nil d ds)]

theorem lineChars_unlinesChars {ls : List (List Char)} (h : ∀ l ∈ ls, '\n' ∉ l) :
    lineChars (unlinesChars ls) = ls.map dropReturn := by
  induction ls with
  | nil => rfl
  | cons l ls ih =>
    have hl : '\n' ∉ l := h l List.mem_cons_self
    have hls : ∀ l ∈ ls, '\n' ∉ l := fun k m => h k (List.mem_cons_of_mem _ m)
    rw [unlinesChars, lineChars_append_newline hl, ih hls, List.map_cons]

theorem toList_joinLines {ls : List String} (h : ls ≠ []) :
    (joinLines ls).toList = unlinesChars (ls.map String.toList) := by
  have hj (ls : List String) :
      (joinLines ls).toList = ['\n'].intercalate (ls.map String.toList) ++ ['\n'] := by
    simp [joinLines, String.toList_append, String.toList_intercalate]
  induction ls with
  | nil => exact absurd rfl h
  | cons l ls ih =>
    cases ls with
    | nil => simp [hj, unlinesChars]
    | cons k ks =>
      have := ih (List.cons_ne_nil k ks)
      rw [hj, List.map_cons] at this
      rw [hj, List.map_cons, List.map_cons, List.intercalate_cons_cons, List.append_assoc,
        List.append_assoc, this]
      rfl

theorem lines_joinLines {ls : List String} (hne : ls ≠ []) (h : ∀ l ∈ ls, '\n' ∉ l.toList) :
    lines (joinLines ls) = ls.map chomp := by
  have hc : ∀ l ∈ ls.map String.toList, '\n' ∉ l := by
    intro l hl
    obtain ⟨s, hs, rfl⟩ := List.mem_map.mp hl
    exact h s hs
  rw [lines, toList_joinLines hne, lineChars_unlinesChars hc, List.map_map, List.map_map]
  rfl

theorem unlinesChars_append (ks ls : List (List Char)) :
    unlinesChars (ks ++ ls) = unlinesChars ks ++ unlinesChars ls := by
  induction ks with
  | nil => rfl
  | cons k ks ih => simp [unlinesChars, ih]

theorem unlinesChars_lineChars {cs : List Char} (hreturn : '\r' ∉ cs)
    (hend : cs = [] ∨ cs.getLast? = some '\n') : unlinesChars (lineChars cs) = cs := by
  induction cs with
  | nil => rfl
  | cons c cs ih =>
    have hc : c ≠ '\r' := fun e => hreturn (e ▸ List.mem_cons_self)
    have hcs : cs = [] ∨ cs.getLast? = some '\n' := by
      cases cs with
      | nil => exact .inl rfl
      | cons d ds => exact .inr (by simpa using hend)
    have ih := ih (fun m => hreturn (List.mem_cons_of_mem _ m)) hcs
    by_cases hline : c = '\n'
    · rw [lineChars, if_pos hline, unlinesChars, ih, hline]
      rfl
    · rw [lineChars, if_neg hline, if_neg fun h => hc h.1]
      split
      · rename_i hnone
        rw [hnone] at ih
        simp [← ih, unlinesChars, hline] at hend
      · rename_i l ls hls
        rw [hls] at ih
        rw [← ih]
        rfl

/-- A text is its lines if it ends with a line feed and has no carriage return. -/
theorem joinLines_lines {s : String} (hreturn : '\r' ∉ s.toList)
    (hend : s.toList.getLast? = some '\n') : joinLines (lines s) = s := by
  have hchars := unlinesChars_lineChars hreturn (.inr hend)
  have hne : lines s ≠ [] := by
    intro h
    rw [List.map_eq_nil_iff.mp h] at hchars
    rw [← hchars] at hend
    cases hend
  have hback : (lines s).map String.toList = lineChars s.toList := by simp [lines]
  rw [← String.ofList_toList (s := joinLines (lines s)), toList_joinLines hne, hback, hchars,
    String.ofList_toList]

end Whittle.Text
