import QueryCache.Proofs.Query.Compilation
import QueryCache.Proofs.Sql.Grammar

/-!
# Texts of trees and precedence

Nodes print no parentheses, so the text of a tree is read correctly where precedence suffices: if no
disjunction lies below a conjunction outside a group. The text of such a tree has exactly one
reading, and the formula that it is read as holds where the tree does.

## Main definitions

* `Condition.IsWellFormed` : conditions with a plain field name and something to compare with.
* `Sql.Says` : a text is read at a level of the grammar as a formula that holds where a tree does.

## Main results

* `Sql.says_ofCondition`, `Sql.Says.join_and`, `Sql.Says.join_or`, `Sql.Says.group` : what the texts
  of tests, joins and groups say.
* `Sql.compile_says` : what the text of a tree says.
* `Sql.compile_reads_as_tree` : the text of a tree has one reading, which means the tree.
-/

namespace QueryCache

/-- A condition on a plain field; what a list operator compares with is a list that has an
element. -/
def Condition.IsWellFormed (c : Condition) : Prop :=
  Sql.isFieldName c.field ∧
    (c.operator.takesSequence → ∃ value values, c.value = .arr (value :: values))

namespace Sql

/-- The truth values that an assignment gives to conditions. -/
def Assignment.ofCondition (v : Assignment) (c : Condition) : Bool :=
  v c.field c.operator c.operands

/-! ### Texts in a row -/

theorem join_nil (j : Joiner) (s : Sql) : join j s [] = s := by
  simp [join, concat]

theorem text_join_cons (j : Joiner) (s t : Sql) (rest : List Sql) :
    (join j s (t :: rest)).text = s.text ++ j.sql ++ (join j t rest).text := by
  simp [join, concat, follow, text, Piece.text, String.append_assoc]

theorem parameters_join_cons (j : Joiner) (s t : Sql) (rest : List Sql) :
    (join j s (t :: rest)).parameters = s.parameters ++ (join j t rest).parameters := by
  simp [join, concat, follow, parameters, Piece.values]

theorem text_group (s : Sql) : (group s).text = "(" ++ s.text ++ ")" := by
  simp [group, text, Piece.text, String.append_assoc]

theorem parameters_group (s : Sql) : (group s).parameters = s.parameters := by
  simp [group, parameters, Piece.values]

theorem text_ofTest (t : String) (values : List Json) : (ofTest t values).text = t := by
  simp [ofTest, text, Piece.text]

theorem parameters_ofTest (t : String) (values : List Json) :
    (ofTest t values).parameters = values := by
  simp [ofTest, parameters, Piece.values]

/-! ### Readings of longer texts -/

/-- Two conjunctions joined by conjunction are one. -/
theorem Reads.and_append {s t : String} {ps qs : List Json} {f g : Formula}
    (hs : Reads .conjunction s ps f) (ht : Reads .conjunction t qs g) :
    ∃ h, Reads .conjunction (s ++ " AND " ++ t) (ps ++ qs) h ∧
      ∀ v, h.holds v = (f.holds v && g.holds v) := by
  generalize hl : Level.conjunction = l at hs
  induction hs with
  | test | parens | conjunction | or => cases hl
  | atom only => exact ⟨_, .and only ht, fun v => rfl⟩
  | @and s₁ ps₁ f₁ s₂ ps₂ f₂ first rest _ ih =>
    obtain ⟨h, hread, hholds⟩ := ih hl
    refine ⟨.both f₁ h, ?_, fun v => ?_⟩
    · simpa only [String.append_assoc, List.append_assoc] using Reads.and first hread
    · rw [Formula.holds, hholds, Formula.holds, Bool.and_assoc]

/-- Two disjunctions joined by disjunction are one. -/
theorem Reads.or_append {s t : String} {ps qs : List Json} {f g : Formula}
    (hs : Reads .disjunction s ps f) (ht : Reads .disjunction t qs g) :
    ∃ h, Reads .disjunction (s ++ " OR " ++ t) (ps ++ qs) h ∧
      ∀ v, h.holds v = (f.holds v || g.holds v) := by
  generalize hl : Level.disjunction = l at hs
  induction hs with
  | test | parens | atom | and => cases hl
  | conjunction only => exact ⟨_, .or only ht, fun v => rfl⟩
  | @or s₁ ps₁ f₁ s₂ ps₂ f₂ first rest _ ih =>
    obtain ⟨h, hread, hholds⟩ := ih hl
    refine ⟨.either f₁ h, ?_, fun v => ?_⟩
    · simpa only [String.append_assoc, List.append_assoc] using Reads.or first hread
    · rw [Formula.holds, hholds, Formula.holds, Bool.or_assoc]

/-! ### What texts say about trees -/

/-- A text is read at a level as a formula that holds exactly where a tree does. -/
def Says (l : Level) (t : Predicate) (s : Sql) : Prop :=
  ∃ f, Reads l s.text s.parameters f ∧ ∀ v : Assignment, f.holds v = t.holds v.ofCondition

theorem Says.conjunction {t : Predicate} {s : Sql} (h : Says .atom t s) : Says .conjunction t s :=
  h.imp fun _ hf => ⟨.atom hf.1, hf.2⟩

theorem Says.disjunction {t : Predicate} {s : Sql} (h : Says .conjunction t s) :
    Says .disjunction t s :=
  h.imp fun _ hf => ⟨.conjunction hf.1, hf.2⟩

/-- The text of a well-formed condition is the test of its field with its operands. -/
theorem says_ofCondition {c : Condition} (hc : c.IsWellFormed) :
    ∃ s, ofCondition "?" c = .ok s ∧ Says .atom (.leaf c) s := by
  obtain ⟨hname, hlist⟩ := hc
  -- the three forms of a test differ in what follows the operator's name
  have test (tail : String) (htail : symbol c.operator ++ tail =
      operatorHead c.operator ++ operatorTail c.operator c.operands.length)
      (hcount : binds c.operator c.operands.length) :
      Says .atom (.leaf c) (ofTest (c.field ++ " " ++ symbol c.operator ++ tail) c.operands) := by
    refine ⟨.test c.field c.operator c.operands, ?_, fun v => rfl⟩
    rw [text_ofTest, parameters_ofTest, String.append_assoc, htail, ← String.append_assoc]
    exact Reads.test hname hcount
  by_cases hnull : c.operator.isNullCheck = true
  · have hseq : c.operator.takesSequence = false := by
      cases ho : c.operator <;> simp_all [Operator.isNullCheck, Operator.takesSequence]
    have hops : c.operands = [] := by simp [Condition.operands, hnull]
    have hof : ofCondition "?" c = .ok (ofTest (c.field ++ " " ++ symbol c.operator) []) := by
      simp only [ofCondition, hnull, if_true]
    have h := test "" (by simp [operatorHead, operatorTail, hnull, hseq])
      (by simp [binds, hnull, hops])
    rw [String.append_empty, hops] at h
    exact ⟨_, hof, h⟩
  by_cases hseq : c.operator.takesSequence = true
  · obtain ⟨value, values, hvalue⟩ := hlist hseq
    have hops : c.operands = value :: values := by
      simp [Condition.operands, hnull, hseq, hvalue]
    have hof : ofCondition "?" c = .ok (ofTest (c.field ++ " " ++ symbol c.operator ++ (" (" ++
        ",".intercalate ((value :: values).map fun _ => "?") ++ ")")) (value :: values)) := by
      simp only [ofCondition, hnull, hseq, hvalue, if_true, Bool.false_eq_true, if_false,
        String.append_assoc]
    have h := test (" (" ++ ",".intercalate ((value :: values).map fun _ => "?") ++ ")")
      (by simp [operatorHead, operatorTail, hnull, hseq, hops, String.append_assoc,
        List.replicate_succ])
      (by simp [binds, hnull, hseq, hops])
    rw [hops] at h
    exact ⟨_, hof, h⟩
  · have hops : c.operands = [c.value] := by simp [Condition.operands, hnull, hseq]
    have hof : ofCondition "?" c =
        .ok (ofTest (c.field ++ " " ++ symbol c.operator ++ " ?") [c.value]) := by
      simp only [ofCondition, hnull, hseq, Bool.false_eq_true, if_false, String.append_assoc]
      rfl
    have h := test " ?" (by simp [operatorHead, operatorTail, hnull, hseq])
      (by simp [binds, hnull, hseq, hops])
    rw [hops] at h
    exact ⟨_, hof, h⟩

/-- Texts joined by conjunction say that all trees hold. -/
theorem Says.join_and {t : Predicate} {s : Sql} (h : Says .conjunction t s) {ts : List Predicate}
    {ss : List Sql} (hs : List.Forall₂ (Says .conjunction) ts ss) :
    Says .conjunction (.and (t :: ts)) (join .and s ss) := by
  induction hs generalizing t s with
  | nil =>
    obtain ⟨f, hread, hholds⟩ := h
    exact ⟨f, by rwa [join_nil], fun v => by simp [hholds]⟩
  | cons hnext _ ih =>
    obtain ⟨f, hread, hholds⟩ := h
    obtain ⟨g, hread', hholds'⟩ := ih hnext
    obtain ⟨both, hboth, hboth'⟩ := hread.and_append hread'
    refine ⟨both, ?_, fun v => ?_⟩
    · rw [text_join_cons, parameters_join_cons]
      exact hboth
    · simp only [hboth', hholds, hholds', Predicate.holds_and, List.all_cons]

/-- Texts joined by disjunction say that some tree holds. -/
theorem Says.join_or {t : Predicate} {s : Sql} (h : Says .disjunction t s) {ts : List Predicate}
    {ss : List Sql} (hs : List.Forall₂ (Says .disjunction) ts ss) :
    Says .disjunction (.or (t :: ts)) (join .or s ss) := by
  induction hs generalizing t s with
  | nil =>
    obtain ⟨f, hread, hholds⟩ := h
    exact ⟨f, by rwa [join_nil], fun v => by simp [hholds]⟩
  | cons hnext _ ih =>
    obtain ⟨f, hread, hholds⟩ := h
    obtain ⟨g, hread', hholds'⟩ := ih hnext
    obtain ⟨either, heither, heither'⟩ := hread.or_append hread'
    refine ⟨either, ?_, fun v => ?_⟩
    · rw [text_join_cons, parameters_join_cons]
      exact heither
    · simp only [heither', hholds, hholds', Predicate.holds_or, List.any_cons]

/-- A text in parentheses says what the text says. -/
theorem Says.group {t : Predicate} {s : Sql} (h : Says .disjunction t s) :
    Says .atom (.group t) (group s) := by
  obtain ⟨f, hread, hholds⟩ := h
  refine ⟨f, ?_, fun v => hholds v⟩
  rw [text_group, parameters_group]
  exact .parens hread

/-! ### Compiled texts -/

/-- The level at which the text of a tree is read; the flag says whether a conjunction stands above
it. -/
def Level.ofTree (below : Bool) : Level := if below then .conjunction else .disjunction

theorem Says.ofTree {t : Predicate} {s : Sql} (h : Says .conjunction t s) (below : Bool) :
    Says (Level.ofTree below) t s := by
  cases below
  · exact h.disjunction
  · exact h

/-- The text of a tree without disjunctions below conjunctions says what is left of the tree. -/
theorem compile_says (p : Predicate) {below : Bool} (hshape : p.orsOutside below)
    (hp : ∀ c ∈ p.leaves, c.IsWellFormed) :
    ∃ x, (Dialect.relational "?").compile p = .ok x ∧
      Dialect.StandsFor (fun _ => true) (Says (Level.ofTree below)) p x := by
  have leaf_of (children : List Predicate) (hp : ∀ c ∈ Predicate.leavesOfAll children,
      c.IsWellFormed) (q : Predicate) (hq : q ∈ children) : ∀ c ∈ q.leaves, c.IsWellFormed :=
    fun c hc => hp c (Predicate.mem_leavesOfAll.2 ⟨q, hq, hc⟩)
  induction p using Predicate.inductionOn generalizing below with
  | leaf c =>
    obtain ⟨s, hs, hsaid⟩ := says_ofCondition (hp c (by simp [Predicate.leaves]))
    refine ⟨some ⟨s, none, Signature.ofCondition c⟩, ?_, .some (hsaid.conjunction.ofTree below)⟩
    simp only [Dialect.compile_leaf, Dialect.ofCondition, Dialect.relational, hs, Except.map,
      Option.map_some]
  | and children ih =>
    rw [Predicate.orsOutside, Predicate.orsOutsideAll_iff] at hshape
    obtain ⟨xs, hxs, hall⟩ := exists_forall₂_and fun q hq =>
      ih q hq (hshape q hq) (leaf_of children hp q hq)
    refine ⟨_, (Dialect.compile_and_eq_ok_iff _).2 ⟨xs, hxs, rfl⟩,
      Dialect.standsFor_join (Predicate.prune?_and _ _) ?_ hall⟩
    exact fun t ts s ss hs hss => (Says.join_and hs hss).ofTree below
  | or children ih =>
    rw [Predicate.orsOutside, Bool.and_eq_true, Predicate.orsOutsideAll_iff] at hshape
    obtain ⟨xs, hxs, hall⟩ := exists_forall₂_and fun q hq =>
      ih q hq (hshape.2 q hq) (leaf_of children hp q hq)
    refine ⟨_, (Dialect.compile_or_eq_ok_iff _).2 ⟨xs, hxs, rfl⟩,
      Dialect.standsFor_join (Predicate.prune?_or _ _) ?_ hall⟩
    obtain rfl : below = false := by simpa using hshape.1
    exact fun t ts s ss hs hss => Says.join_or hs hss
  | group p ih =>
    obtain ⟨x, hx, hsaid⟩ := ih hshape hp
    refine ⟨_, (Dialect.compile_group_eq_ok_iff _).2 ⟨x, hx, rfl⟩, ?_⟩
    rw [Dialect.StandsFor] at hsaid ⊢
    rw [Predicate.prune?_group]
    generalize p.prune? (fun _ => true) = left at hsaid ⊢
    cases hsaid with
    | none => exact .none
    | some hs => exact .some (hs.group.conjunction.ofTree below)

/-- A text with a reading is not empty. -/
theorem Reads.text_ne_empty {l : Level} {s : String} {ps : List Json} {f : Formula}
    (h : Reads l s ps f) : s ≠ "" := by
  induction h with
  | test => simp [testText]
  | parens => simp
  | atom _ ih | conjunction _ ih => exact ih
  | and | or => simp

/-- **The text of a tree is read as the tree.** Let no disjunction of a tree lie below a conjunction
unless a group stands between them. The tree compiles. Its text is empty exactly if the tree has no
condition. If it has one, the text has exactly one reading, and the formula that it is read as holds
under an assignment exactly if the tree without its empty nodes does. -/
theorem compile_reads_as_tree (p : Predicate) (hshape : p.orsOutside false)
    (hp : ∀ c ∈ p.leaves, c.IsWellFormed) :
    ∃ q text, Compiler.compile ⟨.relational, "?"⟩ p = .ok q ∧ q.sql? = some text ∧
      (text = "" ↔ p.leaves = []) ∧
      (p.prune? (fun _ => true) = none ↔ p.leaves = []) ∧
      ∀ t, p.prune? (fun _ => true) = some t →
        ∃ f, Reads .disjunction text q.parameters f ∧
          (∀ g, Reads .disjunction text q.parameters g → g = f) ∧
          ∀ v : Assignment, f.holds v = t.holds v.ofCondition := by
  obtain ⟨x, hx, hsaid⟩ := compile_says p hshape hp
  have hq : Compiler.compile ⟨.relational, "?"⟩ p = .ok (.relational x) := by
    simp only [Compiler.compile, Compiler.assemble, hx, Except.map]
  have hnone : p.prune? (fun _ => true) = none ↔ p.leaves = [] := by
    rw [Predicate.prune?_eq_none_iff]
    simp [List.eq_nil_iff_forall_not_mem]
  rw [Dialect.StandsFor] at hsaid
  rw [← hnone]
  generalize p.prune? (fun _ => true) = left at hsaid hnone ⊢
  cases hsaid with
  | none => exact ⟨_, "", hq, rfl, by simp, by simp, fun t ht => by cases ht⟩
  | @some t fragment hs =>
    obtain ⟨f, hread, hholds⟩ := hs
    refine ⟨_, fragment.body.text, hq, rfl, by simp [hread.text_ne_empty], by simp, ?_⟩
    rintro t' ⟨⟩
    exact ⟨f, hread, fun g hg => hg.unique hread, hholds⟩

/-- A conjunction over a group, a list and an empty node. -/
theorem compile_reads_as_tree_group : ∃ q text f,
    Compiler.compile ⟨.relational, "?"⟩ (.and [.equal "tenant" (.str "t1"), .group (.and []),
      .group (.or [.isIn "role" (.arr [.str "a", .str "b"]), .isNull "deleted_at"])]) = .ok q ∧
    q.sql? = some text ∧ Reads .disjunction text q.parameters f ∧
    ∀ v, f.holds v = (v "tenant" .equal [.str "t1"] &&
      (v "role" .isIn [.str "a", .str "b"] || v "deleted_at" .isNull [])) := by
  have names : isFieldName "tenant" ∧ isFieldName "role" ∧ isFieldName "deleted_at" := by
    decide +kernel
  obtain ⟨q, text, hq, htext, -, -, hread⟩ := compile_reads_as_tree
    (.and [.equal "tenant" (.str "t1"), .group (.and []),
      .group (.or [.isIn "role" (.arr [.str "a", .str "b"]), .isNull "deleted_at"])])
    (by decide)
    (by simp [Predicate.leaves, Predicate.leavesOfAll, Predicate.equal, Predicate.isIn,
      Predicate.isNull, Predicate.compare, Condition.IsWellFormed, Operator.takesSequence, names])
  obtain ⟨f, hf, -, hholds⟩ := hread (.and [.equal "tenant" (.str "t1"),
    .group (.or [.isIn "role" (.arr [.str "a", .str "b"]), .isNull "deleted_at"])]) rfl
  refine ⟨q, text, f, hq, htext, hf, fun v => ?_⟩
  simp [hholds, Predicate.equal, Predicate.isIn, Predicate.isNull, Predicate.compare,
    Assignment.ofCondition, Condition.operands, Operator.isNullCheck, Operator.takesSequence]

end Sql

end QueryCache
