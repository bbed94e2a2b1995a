import Mathlib.Data.List.Basic
import Mathlib.Data.List.TakeWhile
import Whittle.Text.Blank

/-!
# Blanks around a text

`trimChars` takes off exactly the blanks at both ends: what is left is `Trimmed`
(`trimmed_trimChars`), stands in the text with nothing but blanks around it (`padding`), and is the
only such part (`trimChars_padded`).
-/

namespace Whittle.Text

def AllBlank (cs : List Char) : Prop := ∀ c ∈ cs, isBlank c = true

/-- Neither the first nor the last character is a blank. -/
structure Trimmed (cs : List Char) : Prop where
  front : ∀ c ∈ cs.head?, isBlank c = false
  back : ∀ c ∈ cs.getLast?, isBlank c = false

variable {cs core before behind : List Char}

theorem AllBlank.append (h : AllBlank before) (h' : AllBlank behind) :
    AllBlank (before ++ behind) := by
  intro c hc
  exact (List.mem_append.mp hc).elim (h c) (h' c)

theorem AllBlank.nil : AllBlank [] := nofun

theorem allBlank_takeWhile (cs : List Char) : AllBlank (cs.takeWhile isBlank) :=
  fun _ => List.mem_takeWhile_imp

theorem trimStart_padded (hb : AllBlank before) (h : ∀ c ∈ cs.head?, isBlank c = false) :
    trimStart (before ++ cs) = cs := by
  rw [trimStart, List.dropWhile_append_of_pos hb]
  cases cs with
  | nil => rfl
  | cons c cs => rw [List.dropWhile_cons_of_neg (by simp [h c rfl])]

theorem trimEnd_padded (hb : AllBlank behind) (h : ∀ c ∈ cs.getLast?, isBlank c = false) :
    trimEnd (cs ++ behind) = cs := by
  have hback : AllBlank behind.reverse := fun c hc => hb c (List.mem_reverse.mp hc)
  have hfront : ∀ c ∈ cs.reverse.head?, isBlank c = false := by rwa [List.head?_reverse]
  have := trimStart_padded hback hfront
  rw [trimStart] at this
  rw [trimEnd, List.reverse_append, this, List.reverse_reverse]

theorem trimChars_padded (hbefore : AllBlank before) (h : Trimmed core)
    (hbehind : AllBlank behind) : trimChars (before ++ core ++ behind) = core := by
  cases core with
  | nil =>
    have : trimStart (before ++ behind ++ []) = [] :=
      trimStart_padded (hbefore.append hbehind) nofun
    rw [List.append_nil] at this
    rw [List.append_nil, trimChars, this]
    rfl
  | cons c cs =>
    have hfront : ∀ d ∈ (c :: cs ++ behind).head?, isBlank d = false := h.front
    rw [List.append_assoc, trimChars, trimStart_padded hbefore hfront,
      trimEnd_padded hbehind h.back]

theorem trimChars_of_trimmed (h : Trimmed cs) : trimChars cs = cs := by
  simpa using trimChars_padded .nil h .nil

/-- What trimming takes off the back stands behind what it leaves. -/
theorem trimChars_append_back (cs : List Char) :
    trimChars cs ++ ((trimStart cs).reverse.takeWhile isBlank).reverse = trimStart cs := by
  rw [trimChars, trimEnd, ← List.reverse_append, List.takeWhile_append_dropWhile,
    List.reverse_reverse]

/-- A text is what trimming leaves of it, with blanks around. -/
theorem padding (cs : List Char) : ∃ before behind, AllBlank before ∧ AllBlank behind ∧
    cs = before ++ trimChars cs ++ behind := by
  refine ⟨cs.takeWhile isBlank, ((trimStart cs).reverse.takeWhile isBlank).reverse,
    allBlank_takeWhile cs, fun c hc => allBlank_takeWhile _ c (List.mem_reverse.mp hc), ?_⟩
  rw [List.append_assoc, trimChars_append_back]
  exact (List.takeWhile_append_dropWhile ..).symm

theorem trimmed_trimChars (cs : List Char) : Trimmed (trimChars cs) where
  back := by
    intro c hc
    rw [trimChars, trimEnd, List.getLast?_reverse] at hc
    have := List.head?_dropWhile_not isBlank (trimStart cs).reverse
    rw [Option.mem_def.mp hc] at this
    simpa using this
  front := by
    intro c hc
    have hstart : c ∈ (trimStart cs).head? := by
      rw [← trimChars_append_back cs, List.head?_append, Option.mem_def.mp hc]
      rfl
    have := List.head?_dropWhile_not isBlank cs
    rw [show cs.dropWhile isBlank = trimStart cs from rfl, Option.mem_def.mp hstart] at this
    simpa using this

/-- Blanks at the end are taken off with the others. -/
theorem trimChars_append_blanks (h : AllBlank behind) :
    trimChars (cs ++ behind) = trimChars cs := by
  obtain ⟨p, q, hp, hq, hcs⟩ := padding cs
  calc trimChars (cs ++ behind)
      = trimChars (p ++ trimChars cs ++ (q ++ behind)) := by
        rw [← List.append_assoc, ← hcs]
    _ = trimChars cs := trimChars_padded hp (trimmed_trimChars cs) (hq.append h)

/-- Only the ends of a text matter. -/
theorem Trimmed.around {first last : List Char} (h : Trimmed first) (hne : first ≠ [])
    (h' : Trimmed last) (hne' : last ≠ []) (middle : List Char) :
    Trimmed (first ++ middle ++ last) where
  front c hc := by
    rw [List.append_assoc, List.head?_append_of_ne_nil _ hne] at hc
    exact h.front c hc
  back c hc := by
    rw [List.getLast?_append_of_ne_nil _ hne'] at hc
    exact h'.back c hc

theorem trimmed_of_not_blank (h : ∀ c ∈ cs, isBlank c = false) : Trimmed cs where
  front c hc := h c (List.mem_of_mem_head? hc)
  back c hc := h c (List.mem_of_getLast? hc)

end Whittle.Text
