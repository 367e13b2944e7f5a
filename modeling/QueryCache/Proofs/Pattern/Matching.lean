import Mathlib.Computability.Language
import QueryCache.Proofs.Pattern.Reading
import QueryCache.Proofs.Sql.Precedence

/-!
# What patterns and their regular expressions match

A relational store compares a text with a pattern: `%` stands for any run of characters and `_` for
any one character, line feeds among them. A document store matches the text against a regular
expression, in which `.` is any one character except a line feed. So the two agree apart from line
feeds that only a wildcard could stand for.

## Main definitions

* `Pattern.Like`, `Pattern.LikeLines` : the texts that a pattern stands for, and those among them
  whose line feeds all stand in the pattern.
* `Pattern.dot`, `Pattern.Element.language` : the texts that an element of a regular expression
  matches.
* `Pattern.Matches` : a regular expression matches a text.

## Main results

* `Pattern.matches_toRegex_iff` : the texts that the regular expression of a pattern matches.
* `Compiler.like_matches_iff` : a text comparison in both targets.
* `Compiler.like_misses_line_feeds` : a text on which the targets differ.
-/

open Computability

namespace QueryCache

namespace Pattern

/-- The text is one that the pattern stands for. -/
inductive Like : List Char → List Char → Prop where
  /-- The empty pattern stands for the empty text. -/
  | nil : Like [] []
  /-- A run may be empty and may hold any characters. -/
  | run {pattern text : List Char} (any : List Char) (h : Like pattern text) :
    Like ('%' :: pattern) (any ++ text)
  /-- Any one character. -/
  | one {pattern text : List Char} (c : Char) (h : Like pattern text) :
    Like ('_' :: pattern) (c :: text)
  /-- Any other character stands for itself. -/
  | literal {pattern text : List Char} {c : Char} (hrun : c ≠ '%') (hone : c ≠ '_')
    (h : Like pattern text) : Like (c :: pattern) (c :: text)

/-- The texts that a `.` matches. -/
def dot : Language Char := {text | ∃ c, c ≠ '\n' ∧ text = [c]}

/-- The texts that an element of a regular expression matches. -/
def Element.language : Element → Language Char
  | .literal c => {[c]}
  | .anyOne => dot
  | .anyRun => dot∗

/-- The regular expression matches the whole text. -/
def Matches (expression text : String) : Prop :=
  ∃ row, Reads expression row ∧ text.toList ∈ (row.map Element.language).prod

/-! ### Texts that patterns stand for -/

theorem like_nil_iff {text : List Char} : Like [] text ↔ text = [] := by
  constructor
  · rintro ⟨⟩
    rfl
  · rintro rfl
    exact .nil

theorem like_run_iff {pattern text : List Char} :
    Like ('%' :: pattern) text ↔ ∃ any rest, any ++ rest = text ∧ Like pattern rest := by
  constructor
  · intro h
    cases h with
    | run any h => exact ⟨any, _, rfl, h⟩
    | literal hrun => exact absurd rfl hrun
  · rintro ⟨any, rest, rfl, h⟩
    exact .run any h

theorem like_one_iff {pattern text : List Char} :
    Like ('_' :: pattern) text ↔ ∃ c rest, c :: rest = text ∧ Like pattern rest := by
  constructor
  · intro h
    cases h with
    | one c h => exact ⟨c, _, rfl, h⟩
    | literal hrun hone => exact absurd rfl hone
  · rintro ⟨c, rest, rfl, h⟩
    exact .one c h

theorem like_literal_iff {c : Char} {pattern text : List Char} (hrun : c ≠ '%') (hone : c ≠ '_') :
    Like (c :: pattern) text ↔ ∃ rest, c :: rest = text ∧ Like pattern rest := by
  constructor
  · intro h
    cases h with
    | run => exact absurd rfl hrun
    | one => exact absurd rfl hone
    | literal _ _ h => exact ⟨_, rfl, h⟩
  · rintro ⟨rest, rfl, h⟩
    exact .literal hrun hone h

/-- A text has the line feeds of its pattern, and perhaps others where the pattern has wildcards. -/
theorem Like.count_le {pattern text : List Char} (h : Like pattern text) :
    pattern.count '\n' ≤ text.count '\n' := by
  induction h with
  | nil => exact le_rfl
  | run any h ih =>
    rw [List.count_cons_of_ne (by decide), List.count_append]
    omega
  | one c h ih =>
    rw [List.count_cons_of_ne (by decide)]
    exact ih.trans List.count_le_count_cons
  | literal hrun hone h ih =>
    rw [List.count_cons, List.count_cons]
    omega

/-! ### Texts that regular expressions match -/

/-- A run of a regular expression is a text without line feeds. -/
theorem mem_kstar_dot {text : List Char} : text ∈ dot∗ ↔ text.count '\n' = 0 := by
  rw [Language.mem_kstar, List.count_eq_zero]
  constructor
  · rintro ⟨parts, rfl, hparts⟩ hmem
    obtain ⟨part, hpart, hc⟩ := List.mem_flatten.1 hmem
    obtain ⟨c, hne, rfl⟩ := hparts part hpart
    exact hne (List.mem_singleton.1 hc).symm
  · intro h
    refine ⟨text.map fun c => [c], (List.flatMap_singleton' text).symm, ?_⟩
    refine List.forall_mem_map.2 fun c hc => ⟨c, ?_, rfl⟩
    rintro rfl
    exact h hc

/-- The pattern stands for the text, and all line feeds of the text stand in the pattern. -/
def LikeLines (pattern text : List Char) : Prop :=
  Like pattern text ∧ text.count '\n' = pattern.count '\n'

theorem likeLines_nil_iff {text : List Char} : LikeLines [] text ↔ text = [] := by
  rw [LikeLines, like_nil_iff]
  constructor
  · exact And.left
  · rintro rfl
    exact ⟨rfl, rfl⟩

theorem likeLines_run_iff {pattern text : List Char} : LikeLines ('%' :: pattern) text ↔
    ∃ any ∈ dot∗, ∃ rest, LikeLines pattern rest ∧ any ++ rest = text := by
  rw [LikeLines, like_run_iff, List.count_cons_of_ne (by decide)]
  constructor
  · rintro ⟨⟨any, rest, rfl, hlike⟩, hcount⟩
    -- the line feeds of the pattern are all in the rest, so the run has none
    have hle := hlike.count_le
    rw [List.count_append] at hcount
    exact ⟨any, mem_kstar_dot.2 (by omega), rest, ⟨hlike, by omega⟩, rfl⟩
  · rintro ⟨any, hany, rest, ⟨hlike, hcount⟩, rfl⟩
    refine ⟨⟨any, rest, rfl, hlike⟩, ?_⟩
    rw [List.count_append, mem_kstar_dot.1 hany, hcount, Nat.zero_add]

theorem likeLines_one_iff {pattern text : List Char} : LikeLines ('_' :: pattern) text ↔
    ∃ any ∈ dot, ∃ rest, LikeLines pattern rest ∧ any ++ rest = text := by
  rw [LikeLines, like_one_iff, List.count_cons_of_ne (by decide)]
  constructor
  · rintro ⟨⟨c, rest, rfl, hlike⟩, hcount⟩
    have hle := hlike.count_le
    have hc : c ≠ '\n' := by
      rintro rfl
      rw [List.count_cons_self] at hcount
      omega
    rw [List.count_cons_of_ne hc] at hcount
    exact ⟨[c], ⟨c, hc, rfl⟩, rest, ⟨hlike, hcount⟩, rfl⟩
  · rintro ⟨_, ⟨c, hc, rfl⟩, rest, ⟨hlike, hcount⟩, rfl⟩
    exact ⟨⟨c, rest, rfl, hlike⟩, (List.count_cons_of_ne hc).trans hcount⟩

theorem likeLines_literal_iff {c : Char} {pattern text : List Char} (hrun : c ≠ '%')
    (hone : c ≠ '_') : LikeLines (c :: pattern) text ↔
      ∃ own ∈ (Element.literal c).language, ∃ rest,
        LikeLines pattern rest ∧ own ++ rest = text := by
  rw [LikeLines, like_literal_iff hrun hone]
  constructor
  · rintro ⟨⟨rest, rfl, hlike⟩, hcount⟩
    rw [List.count_cons, List.count_cons] at hcount
    exact ⟨[c], rfl, rest, ⟨hlike, Nat.add_right_cancel hcount⟩, rfl⟩
  · rintro ⟨_, rfl, rest, ⟨hlike, hcount⟩, rfl⟩
    refine ⟨⟨rest, rfl, hlike⟩, ?_⟩
    rw [List.singleton_append, List.count_cons, List.count_cons, hcount]

/-- **The texts of a row of elements** are those of the pattern whose line feeds all stand in the
pattern. The induction is on the pattern: a text of its first element is followed by one of the
rest. -/
theorem mem_prod_language_iff {pattern text : List Char} :
    text ∈ ((pattern.map Element.ofChar).map Element.language).prod ↔ LikeLines pattern text := by
  induction pattern generalizing text with
  | nil => exact (Language.mem_one text).trans likeLines_nil_iff.symm
  | cons c pattern ih =>
    rw [List.map_cons, List.map_cons, List.prod_cons, Language.mem_mul]
    simp only [ih]
    by_cases hrun : c = '%'
    · subst hrun
      exact likeLines_run_iff.symm
    · by_cases hone : c = '_'
      · subst hone
        exact likeLines_one_iff.symm
      · rw [Element.ofChar_of_ne hrun hone]
        exact (likeLines_literal_iff hrun hone).symm

/-- **The regular expression of a pattern** matches the texts that the pattern stands for and that
have no line feeds but those of the pattern. -/
theorem matches_toRegex_iff {pattern text : String} :
    Matches (toRegex pattern) text ↔ LikeLines pattern.toList text.toList := by
  rw [← mem_prod_language_iff]
  constructor
  · rintro ⟨row, hrow, hmem⟩
    obtain rfl := reads_toRegex_iff.1 hrow
    exact hmem
  · intro hmem
    exact ⟨_, reads_toRegex_iff.2 rfl, hmem⟩

end Pattern

namespace Compiler

open Pattern

/-- **A text comparison in both targets.** A relational store gets the field and the pattern to
compare it with, a document store a regular expression. For every pattern and every text, the
regular expression matches if and only if the pattern stands for the text and the text has as many
line feeds as the pattern, that is none where the pattern has a wildcard. -/
theorem like_matches_iff (placeholder field pattern text : String) : ∃ q q' expression,
    compile ⟨.relational, placeholder⟩ (.like field (.str pattern)) = .ok q ∧
      compile ⟨.document, placeholder⟩ (.like field (.str pattern)) = .ok q' ∧
      q.sql? = some (field ++ " LIKE " ++ placeholder) ∧ q.parameters = [.str pattern] ∧
      q'.document? = some (.obj [(field, .obj [("$regex", .str expression)])]) ∧
      (Matches expression text ↔ Like pattern.toList text.toList ∧
        text.toList.count '\n' = pattern.toList.count '\n') := by
  refine ⟨_, _, toRegex pattern, rfl, rfl, ?_, rfl, rfl, matches_toRegex_iff⟩
  refine congrArg some ((Sql.text_ofTest _ _).trans ?_)
  change field ++ " " ++ "LIKE" ++ " " ++ placeholder = field ++ " LIKE " ++ placeholder
  simp only [String.append_assoc]
  rfl

/-- **A line feed is missed.** A pattern of a single `%` stands for every text, but its regular
expression does not match a text that is a line feed. -/
theorem like_misses_line_feeds : ∃ q q' expression,
    compile ⟨.relational, "?"⟩ (.like "note" (.str "%")) = .ok q ∧
      compile ⟨.document, "?"⟩ (.like "note" (.str "%")) = .ok q' ∧
      q.sql? = some "note LIKE ?" ∧ q.parameters = [.str "%"] ∧
      q'.document? = some (.obj [("note", .obj [("$regex", .str expression)])]) ∧
      Like "%".toList "\n".toList ∧ ¬ Matches expression "\n" := by
  refine ⟨_, _, toRegex "%", rfl, rfl, by decide, rfl, rfl, .run ['\n'] .nil, fun h => ?_⟩
  exact absurd (matches_toRegex_iff.1 h).2 (by decide)

end Compiler

end QueryCache
