import QueryCache.Proofs.Filter.Shape
import QueryCache.Proofs.Query.Conditions

/-!
# The shape of assembled filters

The filter of an assembled query is empty if no condition counts. Otherwise it is in good shape, and
its leaves are those of the conditions that count, in their order.

## Main results

* `Dialect.keeps_document` : filters in good shape stay so however they are put together.
* `Assembly.document_shaped` : the object of an assembled filter.
-/

namespace QueryCache

open QueryCache.Filter

/-- The filter is in good shape, and its tests are those of the conditions. -/
def Filter.Renders (row : List Condition) (f : Filter) : Prop :=
  f.IsProper ∧
    List.Forall₂ (fun c test => check? c = some test.2 ∧ test.1 = c.field) row f.tests

theorem Filter.renders_append {row : List Condition} {tests : List (String × Json)}
    {rows : List (List Condition)} {fs : List Filter}
    (h : List.Forall₂ (fun c test => check? c = some test.2 ∧ test.1 = c.field) row tests)
    (hrows : List.Forall₂ Renders rows fs) :
    List.Forall₂ (fun c test => check? c = some test.2 ∧ test.1 = c.field) (row ++ rows.flatten)
      (tests ++ fs.flatMap Filter.tests) := by
  refine List.rel_append h ?_
  rw [List.flatMap_def]
  exact List.rel_flatten (List.forall₂_map_right_iff.2 (hrows.imp fun _ _ hrow => hrow.2))

/-- **Filters in good shape** stay so however they are put together. -/
theorem Dialect.keeps_document : document.Keeps Renders where
  leaf {c body} h := by
    obtain ⟨check, hcheck, rfl⟩ := Option.map_eq_some_iff.1 (Except.ok.inj h)
    exact ⟨.test (isCheck_of_check? hcheck), .cons ⟨hcheck, rfl⟩ .nil⟩
  join {j row body rows bodies} h hrows := by
    have hproper : ∀ f ∈ body :: bodies, f.IsProper := by
      refine List.forall_mem_cons.2 ⟨h.1, fun f hf => ?_⟩
      obtain ⟨_, -, hrow⟩ := exists_mem_of_forall₂ hrows hf
      exact hrow.1
    refine ⟨isProper_join hproper, ?_⟩
    change List.Forall₂ _ _ (Filter.join j body bodies).tests
    rw [tests_join]
    exact renders_append h.2 hrows
  concat {row body rows parts} h hrows := by
    have hproper : ∀ part ∈ parts, part.2.IsProper := by
      intro part hpart
      obtain ⟨_, -, hrow⟩ := exists_mem_of_forall₂ hrows hpart
      exact hrow.1
    refine ⟨isProper_concat h.1 hproper, ?_⟩
    change List.Forall₂ _ _ (Filter.concat body parts).tests
    rw [tests_concat h.1 hproper, ← List.flatMap_map]
    exact renders_append h.2 (List.forall₂_map_right_iff.2 hrows)
  group h := nomatch h

namespace Assembly

/-- **The object of an assembled filter.** Let a query for documents be assembled in any way. If
none of its conditions counts, its filter is the empty object. Otherwise the filter is a leaf, an
object of one field with an operator object, or an object of exactly `$and` or `$or` with an array
of at least two objects of which the same holds. Its leaves are those of the conditions that count,
in their order. No leaf is ever taken apart, whatever its field is called. -/
theorem document_shaped {placeholder : String} {a : Assembly} {q : Query}
    (h : a.clause ⟨.document, placeholder⟩ = .ok (.compiled q)) : ∃ object,
    q.document? = some object ∧ (a.leaves .document = [] ∧ object = .obj [] ∨
      a.leaves .document ≠ [] ∧ Shaped object ∧
        List.Forall₂ (fun c leaf => ∃ check, check? c = some check ∧ leaf = .obj [(c.field, check)])
          (a.leaves .document) (leafDocuments object) ∧
        ∀ leaf ∈ leafDocuments object, splitTerms leaf = [[leaf]]) := by
  obtain ⟨x, rfl, hx⟩ :=
    exists_madeOf (Compiler.speaks_document placeholder) Dialect.keeps_document h
  cases x with
  | none => exact ⟨_, rfl, .inl ⟨hx, rfl⟩⟩
  | some fragment =>
    obtain ⟨hproper, htests⟩ : Renders (a.leaves .document) fragment.body := hx
    refine ⟨_, rfl, .inr ⟨?_, shaped_toJson hproper, ?_, ?_⟩⟩
    · intro hnil
      rw [hnil, List.forall₂_nil_left_iff] at htests
      exact hproper.tests_ne_nil htests
    · rw [leafDocuments_toJson hproper, List.forall₂_map_right_iff]
      exact htests.imp fun c test hc => ⟨test.2, hc.1, by rw [leafDocument, hc.2]⟩
    · rw [leafDocuments_toJson hproper]
      refine List.forall_mem_map.2 fun test htest => ?_
      obtain ⟨c, -, hcheck, -⟩ := exists_mem_of_forall₂ htests htest
      exact splitTerms_toJson (.test (isCheck_of_check? hcheck))

/-- A row whose fields are called like joiners and whose values are arrays, as those of joiners
are. One of the conditions does not count. -/
def dollarFields : Assembly :=
  .add [
    .join .or [.empty, .node (.equal "$or" (.arr [.obj [], .obj []]))],
    .compile (.or [.isIn "role" (.str "x"), .notEqual "$and" (.arr [.null])]),
    .join .and [.node (.isIn "$or" (.arr [.null, .null])), .node (.isNull "c")]]

/-- The leaves of these fields under a disjunction, whose last operand is a conjunction. -/
theorem document_shaped_dollarFields : ∃ q first second third fourth,
    dollarFields.clause ⟨.document, "?"⟩ = .ok (.compiled q) ∧
    q.document? = some
      (.obj [("$or", .arr [first, .obj [("$and", .arr [second, third, fourth])]])]) ∧
    Shaped (.obj [("$or", .arr [first, .obj [("$and", .arr [second, third, fourth])]])]) ∧
    first = .obj [("$or", .obj [("$eq", .arr [.obj [], .obj []])])] ∧
    second = .obj [("$and", .obj [("$ne", .arr [.null])])] ∧ splitTerms second = [[second]] := by
  obtain ⟨q, hq⟩ : ∃ q, dollarFields.clause ⟨.document, "?"⟩ = .ok (.compiled q) := ⟨_, rfl⟩
  obtain ⟨object, hobject, ⟨hnil, -⟩ | ⟨-, hshaped, -, hsplit⟩⟩ := document_shaped hq
  · cases hnil
  · cases hq
    cases hobject
    exact ⟨_, _, _, _, _, rfl, rfl, hshaped, rfl, rfl, hsplit _ (.tail _ (.head _))⟩

end Assembly

end QueryCache
