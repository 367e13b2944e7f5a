import Mathlib.Data.List.DropRight
import QueryCache.Text.Blank

/-!
# Blanks around a text

A text is trimmed if it neither begins nor ends with a blank character. Trimming a text leaves the
one trimmed text that it has between blanks.

## Main definitions

* `AllBlank`, `Trimmed` : texts of blank characters, and texts without blank ones at their ends.
* `Padded` : a text with blanks around it.

## Main results

* `trimBlankChars_eq_iff` : what trimming leaves.
-/

namespace QueryCache

variable {text inner : List Char}

/-- Characters of ASCII that are seen are not blank. -/
theorem isBlank_of_visible {c : Char} (h : 0x21 ≤ c.toNat ∧ c.toNat ≤ 0x7e) :
    isBlank c = false := by
  simp only [isBlank, Bool.or_eq_false_iff, Bool.and_eq_false_iff, beq_eq_false_iff_ne,
    decide_eq_false_iff_not]
  omega

/-- Nothing but blank characters. -/
def AllBlank (text : List Char) : Prop := ∀ c ∈ text, isBlank c = true

/-- No blank character at either end. -/
structure Trimmed (text : List Char) : Prop where
  first : ∀ c ∈ text.head?, isBlank c = false
  last : ∀ c ∈ text.getLast?, isBlank c = false

theorem trimmed_nil : Trimmed [] := ⟨nofun, nofun⟩

theorem trimmed_of_forall (h : ∀ c ∈ text, isBlank c = false) : Trimmed text :=
  ⟨fun c hc => h c (List.mem_of_mem_head? hc), fun c hc => h c (List.mem_of_getLast? hc)⟩

/-- A text has another one between blanks. -/
def Padded (inner text : List Char) : Prop :=
  ∃ before after, AllBlank before ∧ AllBlank after ∧ text = before ++ inner ++ after

theorem padded_self (text : List Char) : Padded text text :=
  ⟨[], [], nofun, nofun, (List.append_nil text).symm⟩

theorem trimBlankChars_eq (text : List Char) :
    trimBlankChars text = (text.dropWhile isBlank).rdropWhile isBlank := rfl

theorem padded_nil_iff : Padded [] text ↔ AllBlank text := by
  constructor
  · rintro ⟨before, after, hbefore, hafter, rfl⟩ c hc
    rw [List.append_nil] at hc
    exact (List.mem_append.1 hc).elim (hbefore c) (hafter c)
  · intro h
    exact ⟨text, [], h, nofun, by rw [List.append_nil, List.append_nil]⟩

/-- Blanks in front of a text that begins with another character. -/
theorem dropWhile_isBlank_append {before rest : List Char} (hbefore : AllBlank before)
    (hrest : ∀ c ∈ rest.head?, isBlank c = false) : (before ++ rest).dropWhile isBlank = rest := by
  rw [List.dropWhile_append_of_pos hbefore]
  cases rest with
  | nil => rfl
  | cons c rest => exact List.dropWhile_cons_of_neg (Bool.eq_false_iff.1 (hrest c rfl))

theorem trimmed_trimBlankChars (text : List Char) : Trimmed (trimBlankChars text) := by
  rw [trimBlankChars_eq]
  constructor
  · intro c hc
    -- What is dropped at the end leaves the first character, unless nothing is left.
    obtain ⟨rest, hrest⟩ := List.rdropWhile_prefix isBlank (text.dropWhile isBlank)
    have hhead : c ∈ (text.dropWhile isBlank).head? := by
      rw [← hrest]
      exact List.mem_head?_append_of_mem_head? hc
    have hnot := List.head?_dropWhile_not isBlank text
    rwa [Option.mem_def.1 hhead] at hnot
  · intro c hc
    obtain ⟨hne, rfl⟩ := List.mem_getLast?_eq_getLast hc
    exact Bool.eq_false_iff.2 (List.rdropWhile_last_not isBlank _ hne)

theorem padded_trimBlankChars (text : List Char) : Padded (trimBlankChars text) text := by
  refine ⟨text.takeWhile isBlank, (text.dropWhile isBlank).rtakeWhile isBlank,
    fun c => List.mem_takeWhile_imp, fun c => List.mem_rtakeWhile_imp, ?_⟩
  rw [trimBlankChars_eq, List.append_assoc, List.rdropWhile_append_rtakeWhile,
    List.takeWhile_append_dropWhile]

/-- **What trimming leaves** is the one trimmed text between blanks. -/
theorem trimBlankChars_eq_iff :
    trimBlankChars text = inner ↔ Trimmed inner ∧ Padded inner text := by
  constructor
  · rintro rfl
    exact ⟨trimmed_trimBlankChars text, padded_trimBlankChars text⟩
  · rintro ⟨htrimmed, before, after, hbefore, hafter, rfl⟩
    have hreversed : (after.reverse ++ inner.reverse).dropWhile isBlank = inner.reverse := by
      refine dropWhile_isBlank_append (fun c hc => hafter c (List.mem_reverse.1 hc)) ?_
      rw [List.head?_reverse]
      exact htrimmed.last
    rw [trimBlankChars, List.append_assoc]
    cases inner with
    | nil =>
      have hblank : AllBlank (before ++ ([] ++ after)) :=
        padded_nil_iff.1 ⟨before, after, hbefore, hafter, (List.append_assoc _ _ _).symm⟩
      rw [List.dropWhile_eq_nil_iff.2 hblank]
      rfl
    | cons c rest =>
      have hhead : ∀ d ∈ (c :: rest ++ after).head?, isBlank d = false := htrimmed.first
      rw [dropWhile_isBlank_append hbefore hhead, List.reverse_append, hreversed,
        List.reverse_reverse]

end QueryCache
