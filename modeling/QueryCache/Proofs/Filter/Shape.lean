import QueryCache.Query.Filter
import QueryCache.Proofs.Filter.Truth
import QueryCache.Proofs.Related

/-!
# The shape of filters

A filter is in good shape if each test has an operator object for its check and each joiner has at
least two operands. Putting filters together keeps them in good shape and keeps their tests in
order. The object of such a filter is a leaf, `{field: {operator: operand}}`, or one of `$and` or
`$or` over an array of such objects. A leaf is not taken for a joiner, whatever its field is called:
the value of a joiner's key is an array, and that of a field is not.

## Main definitions

* `Filter.tests` : the tests of a filter from left to right.
* `Filter.IsProper` : filters in good shape.
* `Filter.Shaped`, `Filter.leafDocuments` : the same of filter objects.
* `Filter.splitTerms` : the terms of a filter object.

## Main results

* `Filter.isProper_join`, `Filter.isProper_concat` : filters that are put together.
* `Filter.shaped_toJson`, `Filter.leafDocuments_toJson` : the object of a filter in good shape.
* `Filter.IsProper.holds_toJson` : the object holds where the filter does.
* `Filter.splitTerms_toJson` : an object is taken apart as its filter is.
-/

namespace QueryCache.Filter

/-! ### Filters -/

mutual

/-- The tests of a filter, each a field with its check, from left to right. -/
def tests : Filter → List (String × Json)
  | .test field check => [(field, check)]
  | .all operands => testsOfAll operands
  | .any operands => testsOfAll operands

/-- The tests of several filters, one filter after the other. -/
def testsOfAll : List Filter → List (String × Json)
  | [] => []
  | f :: rest => tests f ++ testsOfAll rest

end

theorem testsOfAll_eq_flatMap (fs : List Filter) : testsOfAll fs = fs.flatMap tests := by
  induction fs with
  | nil => rfl
  | cons f rest ih => rw [testsOfAll, ih, List.flatMap_cons]

/-- The keys of operator objects. -/
def operatorKeys : List String :=
  ["$eq", "$ne", "$gt", "$gte", "$lt", "$lte", "$regex", "$not", "$in", "$nin", "$exists"]

/-- An operator object: one operator with its operand. -/
inductive IsCheck : Json → Prop
  | mk {key operand} (mem : key ∈ operatorKeys) : IsCheck (.obj [(key, operand)])

theorem isCheck_of_check? {c : Condition} {check : Json} (h : check? c = some check) :
    IsCheck check := by
  obtain ⟨field, operator, value⟩ := c
  cases operator
  case isIn | notIn =>
    cases value <;> cases h
    exact .mk (by decide)
  all_goals
    cases h
    exact .mk (by decide)

/-- A filter in good shape: tests have operator objects, and joiners at least two operands. -/
inductive IsProper : Filter → Prop
  | test {field check} (operator : IsCheck check) : IsProper (.test field check)
  | all {operands} (several : 2 ≤ operands.length) (each : ∀ f ∈ operands, IsProper f) :
      IsProper (.all operands)
  | any {operands} (several : 2 ≤ operands.length) (each : ∀ f ∈ operands, IsProper f) :
      IsProper (.any operands)

/-- A filter in good shape has a test. -/
theorem IsProper.tests_ne_nil {f : Filter} (h : f.IsProper) : f.tests ≠ [] := by
  have node {operands : List Filter} (several : 2 ≤ operands.length)
      (ih : ∀ f ∈ operands, f.tests ≠ []) : testsOfAll operands ≠ [] := by
    cases operands with
    | nil => cases several
    | cons f rest => exact List.append_ne_nil_of_left_ne_nil (ih f List.mem_cons_self) _
  induction h with
  | test operator => exact List.cons_ne_nil _ _
  | all several _ ih => exact node several ih
  | any several _ ih => exact node several ih

/-- A list of conjuncts in good shape: there is one, and each is in good shape. -/
def IsTerm (t : List Filter) : Prop := t ≠ [] ∧ ∀ f ∈ t, IsProper f

/-- A list of disjuncts in good shape: there is one, and each is in good shape. -/
def AreTerms (terms : List (List Filter)) : Prop := terms ≠ [] ∧ ∀ t ∈ terms, IsTerm t

/-- The tests of lists of conjuncts. -/
def testsOfTerms (terms : List (List Filter)) : List (String × Json) :=
  terms.flatMap fun t => t.flatMap tests

/-! ### Taking apart -/

theorem tests_conjuncts (f : Filter) : f.conjuncts.flatMap tests = f.tests := by
  cases f with
  | test | any => exact List.flatMap_singleton tests _
  | all operands => rw [conjuncts, tests, testsOfAll_eq_flatMap]

theorem tests_disjuncts (f : Filter) : testsOfTerms f.disjuncts = f.tests := by
  cases f with
  | test | all => exact (List.flatMap_singleton _ _).trans (tests_conjuncts _)
  | any operands =>
    rw [disjuncts, testsOfTerms, tests, testsOfAll_eq_flatMap, List.flatMap_map]
    simp only [tests_conjuncts]

theorem IsProper.conjuncts {f : Filter} (h : f.IsProper) : IsTerm f.conjuncts := by
  cases h with
  | test operator =>
    exact ⟨List.cons_ne_nil _ _, List.forall_mem_singleton.2 (.test operator)⟩
  | all several each => exact ⟨List.ne_nil_of_length_pos (Nat.zero_lt_of_lt several), each⟩
  | any several each =>
    exact ⟨List.cons_ne_nil _ _, List.forall_mem_singleton.2 (.any several each)⟩

theorem areTerms_singleton {t : List Filter} (h : IsTerm t) : AreTerms [t] :=
  ⟨List.cons_ne_nil _ _, List.forall_mem_singleton.2 h⟩

theorem IsProper.disjuncts {f : Filter} (h : f.IsProper) : AreTerms f.disjuncts := by
  cases h with
  | test operator => exact areTerms_singleton (IsProper.test operator).conjuncts
  | all several each => exact areTerms_singleton (IsProper.all several each).conjuncts
  | any several each =>
    have hne := List.ne_nil_of_length_pos (Nat.zero_lt_of_lt several)
    exact ⟨mt List.map_eq_nil_iff.1 hne, List.forall_mem_map.2 fun f hf => (each f hf).conjuncts⟩

/-! ### Joining -/

theorem isProper_wrap {j : Joiner} {fs : List Filter} (several : 2 ≤ fs.length)
    (each : ∀ f ∈ fs, f.IsProper) : (wrap j fs).IsProper := by
  cases j with
  | and => exact .all several each
  | or => exact .any several each

theorem tests_wrap (j : Joiner) (fs : List Filter) : (wrap j fs).tests = fs.flatMap tests := by
  cases j <;> exact testsOfAll_eq_flatMap fs

theorem isProper_join {j : Joiner} {first : Filter} {rest : List Filter}
    (h : ∀ f ∈ first :: rest, f.IsProper) : (join j first rest).IsProper := by
  cases rest with
  | nil => exact h first List.mem_cons_self
  | cons f rest => exact isProper_wrap (by simp) h

theorem tests_join (j : Joiner) (first : Filter) (rest : List Filter) :
    (join j first rest).tests = (first :: rest).flatMap tests := by
  cases rest with
  | nil => exact (List.flatMap_singleton tests first).symm
  | cons f rest => exact tests_wrap j _

/-! ### Side by side -/

section Follow

variable {terms : List (List Filter)} {head : List Filter}

theorem AreTerms.append {others : List (List Filter)} (h : AreTerms terms)
    (h' : ∀ t ∈ others, IsTerm t) : AreTerms (terms ++ others) :=
  ⟨List.append_ne_nil_of_left_ne_nil h.1 _, List.forall_mem_append.2 ⟨h.2, h'⟩⟩

theorem extendLast_concat (front : List (List Filter)) (last head : List Filter) :
    extendLast (front ++ [last]) head = front ++ [last ++ head] := by
  rw [extendLast, List.getLast?_concat, List.dropLast_concat]

/-- The last disjunct of a list of disjuncts, and those before it. -/
theorem exists_extendLast (h : terms ≠ []) (head : List Filter) : ∃ front last,
    terms = front ++ [last] ∧ extendLast terms head = front ++ [last ++ head] := by
  obtain rfl | ⟨front, last, rfl⟩ := List.eq_nil_or_concat' terms
  · exact (h rfl).elim
  · exact ⟨front, last, rfl, extendLast_concat front last head⟩

theorem AreTerms.extendLast (h : AreTerms terms) (h' : ∀ f ∈ head, f.IsProper) :
    AreTerms (extendLast terms head) := by
  obtain ⟨front, last, rfl, hextend⟩ := exists_extendLast h.1 head
  obtain ⟨hfront, hlast⟩ := List.forall_mem_append.1 h.2
  obtain ⟨hne, hproper⟩ := List.forall_mem_singleton.1 hlast
  have hterm : IsTerm (last ++ head) :=
    ⟨List.append_ne_nil_of_left_ne_nil hne _, List.forall_mem_append.2 ⟨hproper, h'⟩⟩
  rw [hextend]
  exact ⟨List.append_ne_nil_of_right_ne_nil _ (List.cons_ne_nil _ _),
    List.forall_mem_append.2 ⟨hfront, List.forall_mem_singleton.2 hterm⟩⟩

theorem testsOfTerms_append (terms others : List (List Filter)) :
    testsOfTerms (terms ++ others) = testsOfTerms terms ++ testsOfTerms others :=
  List.flatMap_append

theorem testsOfTerms_extendLast (h : terms ≠ []) (head : List Filter) :
    testsOfTerms (extendLast terms head) = testsOfTerms terms ++ head.flatMap tests := by
  obtain ⟨front, last, rfl, hextend⟩ := exists_extendLast h head
  simp only [hextend, testsOfTerms, List.flatMap_append, List.flatMap_singleton, List.append_assoc]

variable {part : Option Joiner × Filter}

/-- **A filter behind others** leaves the disjuncts in good shape. -/
theorem AreTerms.follow (h : AreTerms terms) (hpart : part.2.IsProper) :
    AreTerms (follow terms part) := by
  have hincoming := hpart.disjuncts.2
  rw [Filter.follow]
  split
  next head tail _ heq =>
    rw [heq] at hincoming
    obtain ⟨hhead, htail⟩ := List.forall_mem_cons.1 hincoming
    exact (h.extendLast hhead.2).append htail
  next => exact h.append hincoming

/-- **A filter behind others** adds its tests behind theirs. -/
theorem testsOfTerms_follow (h : terms ≠ []) :
    testsOfTerms (follow terms part) = testsOfTerms terms ++ part.2.tests := by
  rw [← tests_disjuncts part.2, follow]
  split
  next head tail _ heq =>
    rw [heq, testsOfTerms_append, testsOfTerms_extendLast h, List.append_assoc]
    rfl
  next => rw [testsOfTerms_append]

end Follow

theorem isProper_ofConjuncts {t : List Filter} (h : IsTerm t) : (ofConjuncts t).IsProper := by
  match t, h with
  | [], h => exact (h.1 rfl).elim
  | [f], h => exact h.2 f List.mem_cons_self
  | f :: g :: rest, h => exact .all (by simp) h.2

theorem tests_ofConjuncts (t : List Filter) : (ofConjuncts t).tests = t.flatMap tests := by
  match t with
  | [] => rfl
  | [f] => exact (List.flatMap_singleton tests f).symm
  | f :: g :: rest => exact testsOfAll_eq_flatMap _

theorem isProper_ofDisjuncts {terms : List (List Filter)} (h : AreTerms terms) :
    (ofDisjuncts terms).IsProper := by
  match terms, h with
  | [], h => exact (h.1 rfl).elim
  | [t], h => exact isProper_ofConjuncts (h.2 t List.mem_cons_self)
  | t :: u :: rest, h =>
    exact .any (by simp) (List.forall_mem_map.2 fun t ht => isProper_ofConjuncts (h.2 t ht))

theorem tests_ofDisjuncts (terms : List (List Filter)) :
    (ofDisjuncts terms).tests = testsOfTerms terms := by
  have hall : (terms.map ofConjuncts).flatMap tests = testsOfTerms terms := by
    simp only [List.flatMap_map, tests_ofConjuncts, testsOfTerms]
  match terms with
  | [] => rfl
  | [t] => exact (List.flatMap_singleton tests _).symm.trans hall
  | t :: u :: rest => exact (testsOfAll_eq_flatMap _).trans hall

/-- Filters side by side leave the disjuncts in good shape, and their tests are in order. -/
theorem foldl_follow {terms : List (List Filter)} {parts : List (Option Joiner × Filter)}
    (h : AreTerms terms) (hparts : ∀ part ∈ parts, part.2.IsProper) :
    AreTerms (parts.foldl follow terms) ∧
      testsOfTerms (parts.foldl follow terms) =
        testsOfTerms terms ++ parts.flatMap fun part => part.2.tests := by
  induction parts generalizing terms with
  | nil => exact ⟨h, (List.append_nil _).symm⟩
  | cons part rest ih =>
    obtain ⟨hpart, hrest⟩ := List.forall_mem_cons.1 hparts
    obtain ⟨hterms, htests⟩ := ih (h.follow hpart) hrest
    refine ⟨hterms, htests.trans ?_⟩
    rw [testsOfTerms_follow h.1, List.append_assoc, List.flatMap_cons]

section Concat

variable {first : Filter} {rest : List (Option Joiner × Filter)} (hfirst : first.IsProper)
  (hrest : ∀ part ∈ rest, part.2.IsProper)

include hfirst hrest

/-- **Filters in good shape side by side** make one in good shape. -/
theorem isProper_concat : (concat first rest).IsProper :=
  isProper_ofDisjuncts (foldl_follow hfirst.disjuncts hrest).1

/-- **Filters side by side** have the tests of all of them in order. -/
theorem tests_concat :
    (concat first rest).tests = first.tests ++ rest.flatMap fun part => part.2.tests := by
  rw [concat, tests_ofDisjuncts, (foldl_follow hfirst.disjuncts hrest).2, tests_disjuncts]

end Concat

/-! ### Objects -/

/-- A filter object in good shape: a leaf, or a joiner over at least two such objects. -/
inductive Shaped : Json → Prop
  | leaf {field check} (operator : IsCheck check) : Shaped (.obj [(field, check)])
  | join {j : Joiner} {items} (several : 2 ≤ items.length) (each : ∀ item ∈ items, Shaped item) :
      Shaped (.obj [(j.documentKey, .arr items)])

/-- The objects under a joiner, if the object is exactly a joiner with an array. -/
def operands? (j : Joiner) : Json → Option (List Json)
  | .obj [(key, .arr items)] => if key = j.documentKey then some items else none
  | _ => none

mutual

/-- The leaves of a filter object from left to right. -/
def leafDocuments : Json → List Json
  | .obj [(key, .arr items)] =>
    if key = Joiner.and.documentKey ∨ key = Joiner.or.documentKey then leafDocumentsOfAll items
    else [.obj [(key, .arr items)]]
  | document => [document]

/-- The leaves of several filter objects, one object after the other. -/
def leafDocumentsOfAll : List Json → List Json
  | [] => []
  | document :: rest => leafDocuments document ++ leafDocumentsOfAll rest

end

theorem leafDocumentsOfAll_eq_flatMap (documents : List Json) :
    leafDocumentsOfAll documents = documents.flatMap leafDocuments := by
  induction documents with
  | nil => rfl
  | cons document rest ih => rw [leafDocumentsOfAll, ih, List.flatMap_cons]

theorem leafDocuments_join (j : Joiner) (items : List Json) :
    leafDocuments (.obj [(j.documentKey, .arr items)]) = items.flatMap leafDocuments := by
  rw [leafDocuments, if_pos (by cases j <;> simp), leafDocumentsOfAll_eq_flatMap]

/-- The conjuncts of a filter object. -/
def splitConjuncts (document : Json) : List Json := (operands? .and document).getD [document]

/-- The disjuncts of a filter object, each as the list of its conjuncts. -/
def splitTerms (document : Json) : List (List Json) :=
  match operands? .or document with
  | some items => items.map splitConjuncts
  | none => [splitConjuncts document]

theorem toJsonAll_eq_map (fs : List Filter) : toJsonAll fs = fs.map toJson := by
  induction fs with
  | nil => rfl
  | cons f rest ih => rw [toJsonAll, ih, List.map_cons]

theorem toJson_ne_empty (f : Filter) : f.toJson ≠ .obj [] := by
  cases f <;> simp [toJson]

/-- **The object of a filter in good shape** is in good shape. -/
theorem shaped_toJson {f : Filter} (h : f.IsProper) : Shaped f.toJson := by
  induction h with
  | test operator => exact .leaf operator
  | @all operands several _ ih =>
    rw [toJson, toJsonAll_eq_map]
    exact .join (by rwa [List.length_map]) (List.forall_mem_map.2 ih)
  | @any operands several _ ih =>
    rw [toJson, toJsonAll_eq_map]
    exact .join (by rwa [List.length_map]) (List.forall_mem_map.2 ih)

/-- The object of a test. -/
def leafDocument (test : String × Json) : Json := .obj [(test.1, test.2)]

/-- **The leaves of a filter's object** are its tests. -/
theorem leafDocuments_toJson {f : Filter} (h : f.IsProper) :
    leafDocuments f.toJson = f.tests.map leafDocument := by
  have node {j : Joiner} {operands : List Filter}
      (ih : ∀ f ∈ operands, leafDocuments f.toJson = f.tests.map leafDocument) :
      leafDocuments (.obj [(j.documentKey, .arr (toJsonAll operands))]) =
        (testsOfAll operands).map leafDocument := by
    rw [leafDocuments_join, toJsonAll_eq_map, List.flatMap_map, testsOfAll_eq_flatMap,
      List.map_flatMap]
    exact List.flatMap_congr ih
  induction h with
  | test operator =>
    cases operator
    rfl
  | all several _ ih => exact node ih
  | any several _ ih => exact node ih

theorem splitConjuncts_toJson {f : Filter} (h : f.IsProper) :
    splitConjuncts f.toJson = f.conjuncts.map toJson := by
  cases h with
  | test operator =>
    cases operator
    rfl
  | @all operands _ _ =>
    rw [conjuncts, ← toJsonAll_eq_map]
    rfl
  | any _ _ => rfl

/-- **An object is taken apart as its filter is.** -/
theorem splitTerms_toJson {f : Filter} (h : f.IsProper) :
    splitTerms f.toJson = f.disjuncts.map (List.map toJson) := by
  have single : splitTerms f.toJson = [splitConjuncts f.toJson] → f.disjuncts = [f.conjuncts] →
      splitTerms f.toJson = f.disjuncts.map (List.map toJson) := by
    intro hsplit hdisjuncts
    rw [hsplit, hdisjuncts, splitConjuncts_toJson h, List.map_singleton]
  cases h with
  | test operator =>
    cases operator
    exact single rfl rfl
  | all _ _ => exact single rfl rfl
  | @any operands _ each =>
    have hsplit : splitTerms (any operands).toJson = (toJsonAll operands).map splitConjuncts := rfl
    rw [hsplit, disjuncts, toJsonAll_eq_map, List.map_map, List.map_map]
    exact List.map_congr_left fun f hf => splitConjuncts_toJson (each f hf)

section Truth

variable (w : String → Json → Bool)

theorem allDocumentsHold_eq_all (documents : List Json) :
    allDocumentsHold w documents = documents.all (documentHolds w) := by
  induction documents with
  | nil => rfl
  | cons document rest ih => rw [allDocumentsHold, ih, List.all_cons]

theorem anyDocumentHolds_eq_any (documents : List Json) :
    anyDocumentHolds w documents = documents.any (documentHolds w) := by
  induction documents with
  | nil => rfl
  | cons document rest ih => rw [anyDocumentHolds, ih, List.any_cons]

/-- **The object of a filter in good shape** holds where the filter does, whatever its fields are
called. -/
theorem IsProper.holds_toJson {f : Filter} (h : f.IsProper) :
    documentHolds w f.toJson = f.holds w := by
  induction h with
  | test operator =>
    cases operator
    rw [toJson, documentHolds, membersHold, membersHold, Bool.and_true]
    rfl
  | @all operands _ _ ih =>
    rw [toJson, documentHolds, membersHold, membersHold, Bool.and_true, holds, allHold_eq_all,
      toJsonAll_eq_map]
    change allDocumentsHold w (operands.map toJson) = _
    rw [allDocumentsHold_eq_all, List.all_map]
    exact all_eq_of_forall₂ (List.forall₂_same.2 ih)
  | @any operands _ _ ih =>
    rw [toJson, documentHolds, membersHold, membersHold, Bool.and_true, holds, anyHolds_eq_any,
      toJsonAll_eq_map]
    change anyDocumentHolds w (operands.map toJson) = _
    rw [anyDocumentHolds_eq_any, List.any_map]
    exact any_eq_of_forall₂ (List.forall₂_same.2 ih)

end Truth

end QueryCache.Filter
