import QueryCache.Proofs.Query.Conditions
import QueryCache.Proofs.Sql.Placeholders

/-!
# The parameters of assembled queries

The text of an assembled query is laid out from its conditions, and its parameters are what these
bind, both in the order of the conditions. So the parameters go to the placeholders that they are
meant for, however the query was assembled.

## Main results

* `Dialect.keeps_relational` : texts that are laid out from conditions stay so however they are put
  together.
* `Assembly.parameters_line_up` : the text of an assembled query and its parameters.
-/

namespace QueryCache

open Sql

/-- **Texts that are laid out from conditions** stay so however they are put together. -/
theorem Dialect.keeps_relational (placeholder : String) : (relational placeholder).Keeps
    fun row sql => Lays placeholder row sql.text sql.parameters where
  leaf {c body} h := by
    have hleaf : (Sql.ofCondition placeholder c).map some = .ok (some body) := h
    cases hc : Sql.ofCondition placeholder c with
    | error e =>
      rw [hc] at hleaf
      cases hleaf
    | ok sql =>
      rw [hc] at hleaf
      cases hleaf
      rw [ofCondition_eq_ok hc, text_ofTest, parameters_ofTest]
      exact .one c
  join h hrest := h.join hrest
  concat h hparts := h.concat hparts
  group h hbody := by
    cases h
    exact hbody.group

namespace Assembly

/-- **Placeholders and parameters line up.** Let a query for a relational store be assembled in any
way. Its text is laid out from the texts of its conditions in their order, with joiners and
parentheses between and around them, and its parameters are what the conditions bind, in the same
order. The text of a condition is its field and operator and a placeholder for each value that it
binds. So if the placeholder is a question mark and no field has one in its name, then the text has
as many question marks as there are parameters; and wherever the text is cut at a question mark,
this stands in the text of the condition that binds the parameter with its number. -/
theorem parameters_line_up {placeholder : String} {a : Assembly} {q : Query}
    (h : a.clause ⟨.relational, placeholder⟩ = .ok (.compiled q)) : ∃ text,
    q.sql? = some text ∧ Lays placeholder (a.leaves .relational) text q.parameters ∧
      q.parameters = (a.leaves .relational).flatMap Condition.operands ∧
      (placeholder = "?" → (∀ c ∈ a.leaves .relational, '?' ∉ c.field.toList) →
        text.toList.count '?' = q.parameters.length ∧
        ∀ u v, text.toList = u ++ '?' :: v → ∃ before c after n,
          a.leaves .relational = before ++ c :: after ∧ Cut u v before c after n ∧
            q.parameters[u.count '?']? = c.operands[n]?) := by
  obtain ⟨text, htext, hlays⟩ : ∃ text, q.sql? = some text ∧
      Lays placeholder (a.leaves .relational) text q.parameters := by
    obtain ⟨x, rfl, hx⟩ := exists_madeOf (Compiler.speaks_relational placeholder)
      (Dialect.keeps_relational placeholder) h
    cases x with
    | none =>
      have hnil : a.leaves .relational = [] := hx
      rw [hnil]
      exact ⟨"", rfl, .done⟩
    | some fragment => exact ⟨_, rfl, hx⟩
  refine ⟨text, htext, hlays, hlays.parameters_eq, ?_⟩
  rintro rfl hfields
  refine ⟨hlays.count_eq hfields, fun u v hcut => ?_⟩
  obtain ⟨before, c, after, n, hrow, hfound⟩ := hlays.exists_cut hfields hcut
  refine ⟨before, c, after, n, hrow, hfound, ?_⟩
  rw [hlays.parameters_eq, hrow, hfound.getElem?]

/-- A row whose last part stands behind no joiner. -/
def looseRow : Assembly :=
  .add [
    .compile (.and [.equal "a" (.ofInt 1), .or []]),
    .group (.join .or [.empty, .node (.isIn "b" (.arr [.ofInt 2, .ofInt 3])), .node (.isNull "c")]),
    .compile (.like "d" (.str "?"))]

/-- The third question mark is the second one of the list. -/
theorem parameters_line_up_looseRow : ∃ q text before c after n,
    looseRow.clause ⟨.relational, "?"⟩ = .ok (.compiled q) ∧ q.sql? = some text ∧
      text = "a = ? OR (b IN (?,?) OR c IS NULL)d LIKE ?" ∧
      text.toList.count '?' = q.parameters.length ∧
      Cut "a = ? OR (b IN (?,".toList ") OR c IS NULL)d LIKE ?".toList before c after n ∧
      c.operands[n]? = some (.ofInt 3) := by
  obtain ⟨q, hq⟩ : ∃ q, looseRow.clause ⟨.relational, "?"⟩ = .ok (.compiled q) := ⟨_, rfl⟩
  obtain ⟨text, htext, -, -, hmarks⟩ := parameters_line_up hq
  obtain ⟨hcount, hcuts⟩ := hmarks rfl (by decide +kernel)
  obtain rfl : text = "a = ? OR (b IN (?,?) OR c IS NULL)d LIKE ?" := by
    cases hq
    cases htext
    decide +kernel
  obtain ⟨before, c, after, n, -, hcut, hvalue⟩ := hcuts "a = ? OR (b IN (?,".toList
    ") OR c IS NULL)d LIKE ?".toList (by decide +kernel)
  refine ⟨q, _, before, c, after, n, hq, htext, rfl, hcount, hcut, hvalue.symm.trans ?_⟩
  cases hq
  rfl

end Assembly

end QueryCache
