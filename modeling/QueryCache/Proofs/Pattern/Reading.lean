import Mathlib.Data.List.Basic
import Mathlib.Logic.Function.Basic
import QueryCache.Query.Compiler

/-!
# Reading regular expressions of patterns

The body of a regular expression is read from left to right: a backslash makes the character behind
it a literal, `.*` is any run of characters, another `.` any one character, and every other
character is a literal unless it is a metacharacter. No regular expression of a pattern has a star
behind a single `.`, as literal stars are escaped, so that reading gives back the elements of the
pattern.

## Main definitions

* `Pattern.Element`, `Pattern.elements` : the elements of a pattern.
* `Pattern.readElements?` : the elements that the body of a regular expression reads as.
* `Pattern.Reads` : the same for an anchored regular expression.

## Main results

* `Pattern.reads_toRegex_iff` : the regular expression of a pattern reads as the pattern only.
* `Pattern.toRegex_injective` : different patterns have different regular expressions.
* `Compiler.like_readable` : the filters of both text comparisons.
-/

namespace QueryCache

namespace Pattern

/-- A part of a pattern. -/
inductive Element where
  /-- The character itself. -/
  | literal (c : Char)
  /-- Any one character. -/
  | anyOne
  /-- Any run of characters, also an empty one. -/
  | anyRun
deriving DecidableEq

/-- The element that a character of a pattern stands for. -/
def Element.ofChar (c : Char) : Element :=
  if c = '%' then .anyRun else if c = '_' then .anyOne else .literal c

theorem Element.ofChar_of_ne {c : Char} (hrun : c ≠ '%') (hone : c ≠ '_') :
    Element.ofChar c = .literal c := by
  rw [Element.ofChar, if_neg hrun, if_neg hone]

theorem Element.ofChar_injective : Function.Injective Element.ofChar := by
  intro c d h
  simp only [Element.ofChar] at h
  split_ifs at h <;> simp_all

/-- The elements of a pattern. -/
def elements (pattern : String) : List Element := pattern.toList.map Element.ofChar

theorem elements_injective : Function.Injective elements := fun _ _ h =>
  String.toList_injective (Element.ofChar_injective.list_map h)

/-- The elements that the body of a regular expression reads as. -/
def readElements? : List Char → Option (List Element)
  | [] => some []
  | '\\' :: c :: rest => (readElements? rest).map (Element.literal c :: ·)
  | '.' :: '*' :: rest => (readElements? rest).map (Element.anyRun :: ·)
  | '.' :: rest => (readElements? rest).map (Element.anyOne :: ·)
  | c :: rest => if c ∈ metacharacters then none
      else (readElements? rest).map (Element.literal c :: ·)

/-- The regular expression is anchored at both ends and reads as the elements. -/
def Reads (expression : String) (row : List Element) : Prop :=
  ∃ body, expression.toList = '^' :: (body ++ ['$']) ∧ readElements? body = some row

theorem Reads.unique {expression : String} {row row' : List Element} (h : Reads expression row)
    (h' : Reads expression row') : row = row' := by
  obtain ⟨body, hbody, hrow⟩ := h
  obtain ⟨body', hbody', hrow'⟩ := h'
  have heq : body = body' :=
    List.append_cancel_right (List.cons_injective (hbody.symm.trans hbody'))
  rw [heq, hrow'] at hrow
  exact (Option.some.inj hrow).symm

/-! ### Literal texts -/

theorem escape_nil : escape [] = [] := rfl

theorem escape_cons (c : Char) (text : List Char) :
    escape (c :: text) = (if c ∈ metacharacters then ['\\', c] else [c]) ++ escape text := rfl

/-- An escaped literal text is read back, whatever stands behind it. -/
theorem readElements?_escape_append (text rest : List Char) :
    readElements? (escape text ++ rest) =
      (readElements? rest).map (text.map Element.literal ++ ·) := by
  induction text with
  | nil => simp [escape_nil]
  | cons c text ih =>
    rw [escape_cons, List.append_assoc]
    by_cases hc : c ∈ metacharacters
    · simp [hc, readElements?, ih, Function.comp_def]
    · have hback : c ≠ '\\' := fun h => hc (h ▸ by decide)
      have hdot : c ≠ '.' := fun h => hc (h ▸ by decide)
      simp [hc, readElements?, hback, hdot, ih, Function.comp_def]

/-- A text that follows an escaped literal text begins with a star only if nothing precedes it. -/
theorem escape_append_ne_star {text rest : List Char} (h : ∀ tail, rest ≠ '*' :: tail) :
    ∀ tail, escape text ++ rest ≠ '*' :: tail := by
  cases text with
  | nil => exact h
  | cons c text =>
    intro tail heq
    rw [escape_cons] at heq
    by_cases hc : c ∈ metacharacters
    · rw [if_pos hc] at heq
      exact absurd (List.cons_eq_cons.1 heq).1 (by decide)
    · rw [if_neg hc] at heq
      exact hc ((List.cons_eq_cons.1 heq).1 ▸ by decide)

/-! ### Regular expressions of patterns -/

/-- No regular expression of a pattern begins with a star. -/
theorem translate_ne_star (literal pattern : List Char) :
    ∀ tail, translate literal pattern ≠ '*' :: tail := by
  induction literal, pattern using translate.induct with
  | case1 literal =>
    rw [translate, ← List.append_nil (escape literal)]
    exact escape_append_ne_star (by simp)
  | case2 literal rest ih => exact escape_append_ne_star (by simp)
  | case3 literal rest ih => exact escape_append_ne_star (by simp)
  | case4 literal c rest hrun hone ih => rwa [translate] <;> assumption

theorem readElements?_dot {rest : List Char} (h : ∀ tail, rest ≠ '*' :: tail) :
    readElements? ('.' :: rest) = (readElements? rest).map (Element.anyOne :: ·) := by
  rw [readElements?]
  exact h

/-- The regular expression of the rest of a pattern reads as the literal text before it and the
elements of the rest. The induction is on the scan of the pattern, which moves characters into the
literal text. -/
theorem readElements?_translate (literal pattern : List Char) :
    readElements? (translate literal pattern) =
      some (literal.map Element.literal ++ pattern.map Element.ofChar) := by
  induction literal, pattern using translate.induct with
  | case1 literal =>
    rw [translate, ← List.append_nil (escape literal), readElements?_escape_append]
    rfl
  | case2 literal rest ih =>
    rw [translate, readElements?_escape_append, readElements?, ih]
    rfl
  | case3 literal rest ih =>
    rw [translate, readElements?_escape_append, readElements?_dot (translate_ne_star [] rest), ih]
    rfl
  | case4 literal c rest hrun hone ih =>
    rw [translate, ih]
    · simp [Element.ofChar_of_ne hrun hone]
    all_goals assumption

theorem toList_toRegex (pattern : String) :
    (toRegex pattern).toList = '^' :: (translate [] pattern.toList ++ ['$']) := by
  simp [toRegex]

/-- **The regular expression of a pattern** reads as the elements of the pattern and as nothing
else. -/
theorem reads_toRegex_iff {pattern : String} {row : List Element} :
    Reads (toRegex pattern) row ↔ row = elements pattern := by
  have hreads : Reads (toRegex pattern) (elements pattern) :=
    ⟨_, toList_toRegex pattern, readElements?_translate [] pattern.toList⟩
  constructor
  · intro h
    exact h.unique hreads
  · rintro rfl
    exact hreads

/-- **Different patterns** have different regular expressions. -/
theorem toRegex_injective : Function.Injective toRegex := by
  intro pattern pattern' h
  have hreads : Reads (toRegex pattern') (elements pattern) := h ▸ reads_toRegex_iff.2 rfl
  exact elements_injective (reads_toRegex_iff.1 hreads)

end Pattern

namespace Compiler

open Pattern

/-- **Text comparisons can be read back.** For every field and every value, the filters of both text
comparisons hold the same regular expression. It is anchored at both ends, and its body reads from
left to right as exactly the elements of the pattern that the value is the token of: a literal for
each ordinary character, metacharacters among them, any one character for each `_` and any run for
each `%`. So two different patterns never have the same regular expression. -/
theorem like_readable (placeholder field : String) (value : Json) : ∃ q q' body,
    compile ⟨.document, placeholder⟩ (.like field value) = .ok q ∧
      compile ⟨.document, placeholder⟩ (.notLike field value) = .ok q' ∧
      q.document? = some (.obj [(field, .obj [("$regex", .str (toRegex value.token))])]) ∧
      q'.document? =
        some (.obj [(field, .obj [("$not", .obj [("$regex", .str (toRegex value.token))])])]) ∧
      (toRegex value.token).toList = '^' :: (body ++ ['$']) ∧
      readElements? body = some (elements value.token) ∧
      Function.Injective toRegex := by
  obtain ⟨body, hbody, hreads⟩ := reads_toRegex_iff.2 (rfl : elements value.token = _)
  exact ⟨_, _, body, rfl, rfl, rfl, rfl, hbody, hreads, toRegex_injective⟩

/-- A single character before a literal star, and a literal dot before a run. -/
example : toRegex "_*.%" = "^.\\*\\..*$" := by decide

end Compiler

end QueryCache
