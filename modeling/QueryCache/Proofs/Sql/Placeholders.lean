import QueryCache.Proofs.Sql.Precedence

/-!
# Placeholders and parameters

A condition text is laid out from the texts of its conditions in a row, with joiners and parentheses
between and around them; its parameters are what the conditions bind, in the same row. The text of a
condition has one placeholder for each value that it binds. So each placeholder stands in the text
of the condition that binds its value.

## Main definitions

* `Condition.text` : the text of a condition.
* `Sql.Lays` : a text with its parameters is laid out from conditions in a row.
* `Sql.Cut` : a text that is cut at a placeholder, and the condition that this belongs to.

## Main results

* `Sql.ofCondition_eq_ok` : the test of a condition.
* `Sql.Lays.append`, `Sql.Lays.concat`, `Sql.Lays.join`, `Sql.Lays.group` : texts put together.
* `Sql.Lays.count_eq` : there are as many placeholders as parameters.
* `Sql.Lays.exists_cut` : each placeholder belongs to the condition that binds its value.
-/

namespace QueryCache

/-- The text of a condition: its field and operator, and a placeholder for each value that it
binds. -/
def Condition.text (placeholder : String) (c : Condition) : String :=
  c.field ++ " " ++ Sql.symbol c.operator ++
    if c.operator.takesSequence then
      " (" ++ ",".intercalate (c.operands.map fun _ => placeholder) ++ ")"
    else String.join (c.operands.map fun _ => " " ++ placeholder)

namespace Sql

/-! ### Layout -/

/-- What stands between and around the texts of conditions. -/
def marks : List String := [" AND ", " OR ", "(", ")"]

/-- A text with its parameters is laid out from conditions in a row: it consists of their texts,
with marks between and around them, and the parameters are the values that they bind. -/
inductive Lays (placeholder : String) : List Condition → String → List Json → Prop
  | done : Lays placeholder [] "" []
  | mark {m row s ps} (mem : m ∈ marks) (rest : Lays placeholder row s ps) :
      Lays placeholder row (m ++ s) ps
  | leaf {c row s ps} (rest : Lays placeholder row s ps) :
      Lays placeholder (c :: row) (c.text placeholder ++ s) (c.operands ++ ps)

variable {placeholder : String} {row : List Condition} {s : String} {ps : List Json}

/-- The test of a condition is its text with the values that it binds. -/
theorem ofCondition_eq_ok {c : Condition} {sql : Sql} (h : ofCondition placeholder c = .ok sql) :
    sql = ofTest (c.text placeholder) c.operands := by
  obtain ⟨field, operator, value⟩ := c
  cases operator
  case isIn | notIn =>
    cases value
    case arr values =>
      cases values <;> cases h
      simp [Condition.text, Condition.operands, Operator.takesSequence, Operator.isNullCheck,
        String.append_assoc]
    all_goals cases h
  all_goals
    cases h
    simp [Condition.text, Condition.operands, Operator.takesSequence, Operator.isNullCheck,
      String.append_assoc]

theorem text_append (xs ys : List Piece) : text ⟨xs ++ ys⟩ = text ⟨xs⟩ ++ text ⟨ys⟩ := by
  simp [text]

theorem parameters_append (xs ys : List Piece) :
    parameters ⟨xs ++ ys⟩ = parameters ⟨xs⟩ ++ parameters ⟨ys⟩ := by
  simp [parameters]

namespace Lays

theorem append {row' : List Condition} {s' : String} {ps' : List Json}
    (h : Lays placeholder row s ps) (h' : Lays placeholder row' s' ps') :
    Lays placeholder (row ++ row') (s ++ s') (ps ++ ps') := by
  induction h with
  | done => simpa using h'
  | mark mem _ ih =>
    rw [String.append_assoc]
    exact .mark mem ih
  | leaf _ ih =>
    rw [String.append_assoc, List.append_assoc]
    exact .leaf ih

/-- The text of a condition alone. -/
theorem one (c : Condition) : Lays placeholder [c] (c.text placeholder) c.operands := by
  have h : Lays placeholder [c] (c.text placeholder ++ "") (c.operands ++ []) := .leaf .done
  rwa [String.append_empty, List.append_nil] at h

/-- A mark alone. -/
theorem single {m : String} (hm : m ∈ marks) : Lays placeholder [] m [] := by
  have h : Lays placeholder [] (m ++ "") [] := .mark hm .done
  rwa [String.append_empty] at h

/-- A text behind a joiner, if it has one. -/
theorem follow {part : Option Joiner × Sql}
    (h : Lays placeholder row part.2.text part.2.parameters) :
    Lays placeholder row (text ⟨Sql.follow part⟩) (parameters ⟨Sql.follow part⟩) := by
  obtain ⟨- | j, sql⟩ := part
  · exact h
  · have hmark : j.sql ∈ marks := by cases j <;> decide
    have hjoiner : text ⟨Sql.follow (some j, sql)⟩ = j.sql ++ sql.text := by
      simp [Sql.follow, text, Piece.text]
    rw [hjoiner]
    exact .mark hmark h

/-- **Texts in a row.** -/
theorem concat {first : Sql} {rows : List (List Condition)} {parts : List (Option Joiner × Sql)}
    (h : Lays placeholder row first.text first.parameters)
    (hparts : List.Forall₂ (fun row part => Lays placeholder row part.2.text part.2.parameters)
      rows parts) :
    Lays placeholder (row ++ rows.flatten) (concat first parts).text
      (concat first parts).parameters := by
  have hrest : Lays placeholder rows.flatten (text ⟨parts.flatMap Sql.follow⟩)
      (parameters ⟨parts.flatMap Sql.follow⟩) := by
    induction hparts with
    | nil => exact .done
    | cons hpart _ ih =>
      rw [List.flatMap_cons, text_append, parameters_append]
      exact hpart.follow.append ih
  rw [Sql.concat, text_append, parameters_append]
  exact h.append hrest

/-- **Texts with one joiner between them.** -/
theorem join {j : Joiner} {first : Sql} {rows : List (List Condition)} {rest : List Sql}
    (h : Lays placeholder row first.text first.parameters)
    (hrest : List.Forall₂ (fun row sql => Lays placeholder row sql.text sql.parameters) rows rest) :
    Lays placeholder (row ++ rows.flatten) (join j first rest).text
      (join j first rest).parameters :=
  h.concat (List.forall₂_map_right_iff.2 hrest)

/-- **A text in parentheses.** -/
theorem group {sql : Sql} (h : Lays placeholder row sql.text sql.parameters) :
    Lays placeholder row (group sql).text (group sql).parameters := by
  have hclosed := h.append (single (by decide : ")" ∈ marks))
  rw [List.append_nil, List.append_nil] at hclosed
  rw [text_group, parameters_group, String.append_assoc]
  exact .mark (by decide) hclosed

/-! ### Parameters -/

/-- The parameters are what the conditions bind, one after the other. -/
theorem parameters_eq (h : Lays placeholder row s ps) : ps = row.flatMap Condition.operands := by
  induction h with
  | done => rfl
  | mark _ _ ih => exact ih
  | leaf _ ih => rw [ih, List.flatMap_cons]

end Lays

/-! ### Question marks -/

theorem notMem_of_mem_marks {m : String} (h : m ∈ marks) : '?' ∉ m.toList := by
  have hall : ∀ m ∈ marks, '?' ∉ m.toList := by decide
  exact hall m h

/-- **The text of a condition has a placeholder for each value** that it binds. -/
theorem count_text {c : Condition} (hfield : '?' ∉ c.field.toList) :
    (c.text "?").toList.count '?' = c.operands.length := by
  have hfront : (c.field ++ " " ++ symbol c.operator).toList.count '?' = 0 := by
    have hsymbol : '?' ∉ (symbol c.operator).toList := by cases c.operator <;> decide
    simp [List.count_eq_zero, hfield, hsymbol]
  have hlist : (",".intercalate (c.operands.map fun _ => "?")).toList.count '?' =
      c.operands.length := by
    rw [String.toList_intercalate, count_intercalate_of_notMem (by decide), List.count_flatten]
    simp
  have hrow : (String.join (c.operands.map fun _ => " " ++ "?")).toList.count '?' =
      c.operands.length := by
    rw [String.toList_join, List.count_flatMap]
    simp
  rw [Condition.text]
  split
  · rw [String.toList_append, List.count_append, hfront, String.toList_append, String.toList_append,
      List.count_append, List.count_append, hlist]
    simp
  · rw [String.toList_append, List.count_append, hfront, hrow, Nat.zero_add]

namespace Lays

/-- **There are as many placeholders as parameters.** -/
theorem count_eq (h : Lays "?" row s ps) (hfields : ∀ c ∈ row, '?' ∉ c.field.toList) :
    s.toList.count '?' = ps.length := by
  induction h with
  | done => rfl
  | mark mem _ ih =>
    rw [String.toList_append, List.count_append, List.count_eq_zero.2 (notMem_of_mem_marks mem),
      Nat.zero_add, ih hfields]
  | leaf _ ih =>
    obtain ⟨hfield, hrest⟩ := List.forall_mem_cons.1 hfields
    rw [String.toList_append, List.count_append, count_text hfield, ih hrest, List.length_append]

end Lays

/-- A text that is laid out from conditions in a row is cut at a placeholder, with `u` before it and
`v` behind it. The placeholder stands in the text of the condition `c`, and `n` counts those before
it there; what is before and behind this text is laid out from the other conditions. -/
structure Cut (u v : List Char) (before : List Condition) (c : Condition) (after : List Condition)
    (n : Nat) : Prop where
  parts : ∃ front x y back, u = String.toList front ++ x ∧ v = y ++ String.toList back ∧
    (c.text "?").toList = x ++ '?' :: y ∧ x.count '?' = n ∧
    Lays "?" before front (before.flatMap Condition.operands) ∧
    Lays "?" after back (after.flatMap Condition.operands)
  /-- The condition binds a value with this number. -/
  lt : n < c.operands.length
  /-- The placeholders before it are for the values before that one. -/
  count : u.count '?' = (before.flatMap Condition.operands).length + n

theorem Cut.getElem? {u v : List Char} {before after : List Condition} {c : Condition} {n : Nat}
    (h : Cut u v before c after n) :
    ((before ++ c :: after).flatMap Condition.operands)[u.count '?']? = c.operands[n]? := by
  rw [List.flatMap_append, List.flatMap_cons, h.count,
    List.getElem?_append_right (Nat.le_add_right _ _), Nat.add_sub_cancel_left,
    List.getElem?_append_left h.lt]

/-- A cut stays one if something is put in front of the text. -/
theorem Cut.behind {u v : List Char} {before after : List Condition} {c : Condition} {n : Nat}
    (h : Cut u v before c after n) {more : List Condition} {t : String}
    (ht : Lays "?" more t (more.flatMap Condition.operands))
    (hmore : ∀ c ∈ more, '?' ∉ c.field.toList) :
    Cut (t.toList ++ u) v (more ++ before) c after n := by
  obtain ⟨⟨front, x, y, back, rfl, hv, hc, hx, hbefore, hafter⟩, hlt, hcount⟩ := h
  refine ⟨⟨t ++ front, x, y, back, ?_, hv, hc, hx, ?_, hafter⟩, hlt, ?_⟩
  · rw [String.toList_append, List.append_assoc]
  · rw [List.flatMap_append]
    exact ht.append hbefore
  · rw [List.count_append, ht.count_eq hmore, hcount, List.flatMap_append, List.length_append,
      Nat.add_assoc]

/-- **Each placeholder belongs to the condition that binds its value.** -/
theorem Lays.exists_cut (h : Lays "?" row s ps) (hfields : ∀ c ∈ row, '?' ∉ c.field.toList)
    {u v : List Char} (hcut : s.toList = u ++ '?' :: v) :
    ∃ before c after n, row = before ++ c :: after ∧ Cut u v before c after n := by
  induction h generalizing u v with
  | done => exact absurd hcut (by simp)
  | @mark m row s ps mem rest ih =>
    rw [String.toList_append] at hcut
    rcases append_eq_append_cons hcut with ⟨r, hm, -⟩ | ⟨u', rfl, hs⟩
    · exact absurd (hm ▸ List.mem_append_right u List.mem_cons_self) (notMem_of_mem_marks mem)
    · obtain ⟨before, c, after, n, hrow, hrest⟩ := ih hfields hs
      exact ⟨before, c, after, n, hrow, hrest.behind (single mem) nofun⟩
  | @leaf c row s ps rest ih =>
    obtain ⟨hfield, hfields⟩ := List.forall_mem_cons.1 hfields
    rw [String.toList_append] at hcut
    rcases append_eq_append_cons hcut with ⟨y, hc, rfl⟩ | ⟨u', rfl, hs⟩
    · -- the placeholder stands in the text of the first condition
      have hcount := count_text hfield
      rw [hc, List.count_append, List.count_cons_self] at hcount
      rw [rest.parameters_eq] at rest
      exact ⟨[], c, row, u.count '?', rfl, ⟨"", u, y, s, rfl, rfl, hc, rfl, .done, rest⟩, by omega,
        (Nat.zero_add _).symm⟩
    · obtain ⟨before, c', after, n, rfl, hrest⟩ := ih hfields hs
      have hfirst : Lays "?" [c] (c.text "?") ([c].flatMap Condition.operands) := by
        rw [List.flatMap_singleton]
        exact .one c
      exact ⟨c :: before, c', after, n, rfl,
        hrest.behind hfirst (List.forall_mem_singleton.2 hfield)⟩

end Sql

end QueryCache
