import QueryCache.Proofs.Filter.Shape
import QueryCache.Proofs.Query.Signature

/-!
# Filters of trees

The filter of a tree joins the filters of its children under the joiner of the node, so that nesting
takes the place of parentheses and any mixture of joiners keeps its meaning. Conditions without a
check are left out of the filter; a node whose children all come out empty is left out as well, and
one that is left with a single child is this child.

## Main definitions

* `Condition.holdsIn` : the truth value of a condition among those of checks.
* `Filter.Means` : a filter in good shape that holds where a tree does.

## Main results

* `Filter.Means.join_and`, `Filter.Means.join_or` : what joined filters mean.
* `Filter.compile_means` : the filter of a tree means what is left of the tree.
* `Filter.compile_filters_as_tree` : the filter object of a tree without groups.
-/

namespace QueryCache

/-- The truth value of a condition where checks of fields have theirs. -/
def Condition.holdsIn (w : String → Json → Bool) (c : Condition) : Bool :=
  (Filter.check? c).any (w c.field)

/-- The conditions that do not count for documents are list comparisons whose value is no list. -/
theorem Condition.counts_document_eq_false_iff {c : Condition} : c.counts .document = false ↔
    c.operator.takesSequence = true ∧ ∀ values, c.value ≠ .arr values := by
  obtain ⟨field, operator, value⟩ := c
  cases value <;> simp [counts]

namespace Filter

/-- A filter in good shape that holds exactly where a tree does. -/
def Means (t : Predicate) (f : Filter) : Prop :=
  f.IsProper ∧ ∀ w, f.holds w = t.holds (Condition.holdsIn w)

/-! ### Joined filters -/

theorem holds_join_and (w : String → Json → Bool) (first : Filter) (rest : List Filter) :
    (join .and first rest).holds w = (first :: rest).all (holds w) := by
  cases rest with
  | nil => simp [join]
  | cons f rest => exact allHold_eq_all w (first :: f :: rest)

theorem holds_join_or (w : String → Json → Bool) (first : Filter) (rest : List Filter) :
    (join .or first rest).holds w = (first :: rest).any (holds w) := by
  cases rest with
  | nil => simp [join]
  | cons f rest => exact anyHolds_eq_any w (first :: f :: rest)

section Join

variable {t : Predicate} {f : Filter} {ts : List Predicate} {fs : List Filter}

theorem isProper_join_of_means (j : Joiner) (h : Means t f) (hrest : List.Forall₂ Means ts fs) :
    (join j f fs).IsProper := by
  refine isProper_join (List.forall_mem_cons.2 ⟨h.1, fun g hg => ?_⟩)
  obtain ⟨_, -, hmeans⟩ := exists_mem_of_forall₂ hrest hg
  exact hmeans.1

/-- Filters joined by conjunction mean that all trees hold. -/
theorem Means.join_and (h : Means t f) (hrest : List.Forall₂ Means ts fs) :
    Means (.and (t :: ts)) (join .and f fs) := by
  refine ⟨isProper_join_of_means .and h hrest, fun w => ?_⟩
  rw [holds_join_and, Predicate.holds_and, List.all_cons, List.all_cons, h.2 w,
    all_eq_of_forall₂ (hrest.flip.imp fun _ _ hmeans => hmeans.2 w)]

/-- Filters joined by disjunction mean that some tree holds. -/
theorem Means.join_or (h : Means t f) (hrest : List.Forall₂ Means ts fs) :
    Means (.or (t :: ts)) (join .or f fs) := by
  refine ⟨isProper_join_of_means .or h hrest, fun w => ?_⟩
  rw [holds_join_or, Predicate.holds_or, List.any_cons, List.any_cons, h.2 w,
    any_eq_of_forall₂ (hrest.flip.imp fun _ _ hmeans => hmeans.2 w)]

end Join

/-! ### Compiled filters -/

/-- The test of a condition means the condition. -/
theorem means_of_check? {c : Condition} {check : Json} (h : check? c = some check) :
    Means (.leaf c) (.test c.field check) := by
  refine ⟨.test (isCheck_of_check? h), fun w => ?_⟩
  rw [holds, Predicate.holds_leaf, Condition.holdsIn, h, Option.any_some]

/-- **The filter of a tree without groups** means what is left of the tree. -/
theorem compile_means (p : Predicate) (h : p.hasGroup = false) :
    ∃ x, Dialect.document.compile p = .ok x ∧
      Dialect.StandsFor (Condition.counts .document) Means p x := by
  induction p using Predicate.inductionOn with
  | leaf c =>
    refine ⟨(ofCondition c).map fun f => ⟨f, none, Signature.ofCondition c⟩, rfl, ?_⟩
    rw [Dialect.StandsFor, Predicate.prune?_leaf, ← isSome_check?, ofCondition]
    cases hcheck : check? c with
    | none => exact .none
    | some check => exact .some (means_of_check? hcheck)
  | and children ih =>
    obtain ⟨xs, hxs, hall⟩ := exists_forall₂_and fun p hp =>
      ih p hp (Predicate.someHasGroup_eq_false_iff.1 h p hp)
    exact ⟨_, (Dialect.compile_and_eq_ok_iff _).2 ⟨xs, hxs, rfl⟩,
      Dialect.standsFor_join (Predicate.prune?_and _ _) (fun _ _ _ _ => Means.join_and) hall⟩
  | or children ih =>
    obtain ⟨xs, hxs, hall⟩ := exists_forall₂_and fun p hp =>
      ih p hp (Predicate.someHasGroup_eq_false_iff.1 h p hp)
    exact ⟨_, (Dialect.compile_or_eq_ok_iff _).2 ⟨xs, hxs, rfl⟩,
      Dialect.standsFor_join (Predicate.prune?_or _ _) (fun _ _ _ _ => Means.join_or) hall⟩
  | group p _ => cases h

/-- **The filter object of a tree.** Let a tree have no group; its joiners may be mixed in any way.
The tree compiles to a filter object. This is the empty object exactly if nothing is left of the
tree once the list comparisons whose value is no list are taken out of it, with all nodes that are
then without children; and that is so exactly if no condition counts. Otherwise the object holds, by
recursion on `$and` and `$or` down to the checks of fields, exactly where what is left of the tree
does. -/
theorem compile_filters_as_tree {placeholder : String} {p : Predicate} (h : p.hasGroup = false) :
    ∃ q document, Compiler.compile ⟨.document, placeholder⟩ p = .ok q ∧
      q.document? = some document ∧
      (document = .obj [] ↔ p.prune? (Condition.counts .document) = none) ∧
      (p.prune? (Condition.counts .document) = none ↔
        ∀ c ∈ p.leaves, c.operator.takesSequence = true ∧ ∀ values, c.value ≠ .arr values) ∧
      ∀ t, p.prune? (Condition.counts .document) = some t →
        ∀ w, documentHolds w document = t.holds (Condition.holdsIn w) := by
  obtain ⟨x, hx, hstands⟩ := compile_means p h
  have hq : Compiler.compile ⟨.document, placeholder⟩ p = .ok (.document x) := by
    simp only [Compiler.compile, Compiler.assemble, hx, Except.map]
  have hnone : p.prune? (Condition.counts .document) = none ↔
      ∀ c ∈ p.leaves, c.operator.takesSequence = true ∧ ∀ values, c.value ≠ .arr values := by
    rw [Predicate.prune?_eq_none_iff]
    exact forall₂_congr fun c _ => Condition.counts_document_eq_false_iff
  rw [Dialect.StandsFor] at hstands
  generalize p.prune? (Condition.counts .document) = left at hstands hnone ⊢
  cases hstands with
  | none => exact ⟨_, .obj [], hq, rfl, by simp, hnone, fun t ht => by cases ht⟩
  | @some t fragment hmeans =>
    refine ⟨_, fragment.body.toJson, hq, rfl, by simp [toJson_ne_empty], hnone, ?_⟩
    rintro t' ⟨⟩ w
    rw [hmeans.1.holds_toJson, hmeans.2]

/-- A conjunction below a disjunction, both of which lose a child, over a field that is called like
a joiner. -/
theorem compile_filters_as_tree_mixed : ∃ q document,
    Compiler.compile ⟨.document, "?"⟩ (.or [.isIn "role" (.str "admin"),
      .and [.or [.equal "$or" (.arr [.null]), .isNull "a"], .and [.notIn "b" .null],
        .notIn "c" (.arr [])], .or []]) = .ok q ∧
    q.document? = some document ∧ document ≠ .obj [] ∧
    documentHolds (fun field _ => field != "a") document = true ∧
    documentHolds (fun field _ => field != "c") document = false := by
  obtain ⟨q, document, hq, hdocument, hempty, -, hholds⟩ :=
    @compile_filters_as_tree "?" (.or [.isIn "role" (.str "admin"),
      .and [.or [.equal "$or" (.arr [.null]), .isNull "a"], .and [.notIn "b" .null],
        .notIn "c" (.arr [])], .or []]) rfl
  refine ⟨q, document, hq, hdocument, fun h => ?_, ?_, ?_⟩
  · cases hempty.1 h
  · rw [hholds _ rfl]
    decide
  · rw [hholds _ rfl]
    decide

end Filter

end QueryCache
