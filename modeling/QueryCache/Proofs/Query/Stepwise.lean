import QueryCache.Proofs.Filter.Terms
import QueryCache.Proofs.Query.Shape

/-!
# Queries side by side, step by step

Queries may be put side by side all at once, or some of them first and the others behind the
outcome. A text is a row of pieces, so it does not matter where a row is cut. A filter is taken
apart to its disjuncts whenever something follows it, and for filters in good shape nothing is lost
by putting the disjuncts together in between. Empty queries and the joiner in front of the first
query that is not empty are dropped in either case.

## Main definitions

* `Dialect.Rows` : a dialect whose rows may be put together in steps.
* `Compiler.Assembles` : a query that is assembled in some way.
* `Query.detached` : a query without its leading joiner.

## Main results

* `Dialect.Rows.addFragments_append` : rows of fragments, in two steps.
* `Compiler.add_stepwise` : assembled queries side by side, in two steps.
-/

namespace QueryCache

/-- The fragment without its leading joiner. -/
def Fragment.detached {φ : Type} (f : Fragment φ) : Fragment φ := { f with leading := none }

/-! ### Rows in a dialect -/

namespace Dialect

variable {φ : Type} {d : Dialect φ} {Fits : φ → Prop}

/-- Texts or filters that fit may be put side by side in steps: one alone stays as it is, and a row
is extended at its end. -/
structure Rows (d : Dialect φ) (Fits : φ → Prop) : Prop where
  concat_nil : ∀ {body}, Fits body → d.concat body [] = body
  concat_concat : ∀ {body parts}, Fits body → (∀ part ∈ parts, Fits part.2) →
    ∀ others, d.concat (d.concat body parts) others = d.concat body (parts ++ others)

theorem rows_relational (placeholder : String) :
    (relational placeholder).Rows fun _ => True where
  concat_nil {body} _ := by simp [relational, Sql.concat]
  concat_concat _ _ others := by simp [relational, Sql.concat]

theorem rows_document : document.Rows Filter.IsProper where
  concat_nil h := Filter.concat_nil h
  concat_concat h hparts others := Filter.concat_concat h hparts others

/-- The row of fragments that are not all empty. -/
theorem addFragments_of_filterMap {xs : List (Option (Fragment φ))} {first : Fragment φ}
    {rest : List (Fragment φ)} (h : xs.filterMap id = first :: rest) :
    d.addFragments xs = some
      { body := d.concat first.body (rest.map fun f => (f.leading, f.body))
        leading := none
        signature := first.signature.concat (rest.map Fragment.signature) } := by
  rw [addFragments, h]

namespace Rows

/-- **Fragments in a row**, some of them first and the others behind these. -/
theorem addFragments_append (h : d.Rows Fits) {xs : List (Option (Fragment φ))}
    (hxs : ∀ x ∈ xs, ∀ f ∈ x, Fits f.body) (ys : List (Option (Fragment φ))) :
    d.addFragments (d.addFragments xs :: ys) = d.addFragments (xs ++ ys) := by
  have hfits : ∀ f ∈ xs.filterMap id, Fits f.body := by
    intro f hf
    obtain ⟨x, hx, hxf⟩ := List.mem_filterMap.1 hf
    exact hxs x hx f hxf
  have happend : (xs ++ ys).filterMap id = xs.filterMap id ++ ys.filterMap id :=
    List.filterMap_append
  cases hkept : xs.filterMap id with
  | nil =>
    rw [hkept, List.nil_append] at happend
    rw [addFragments, addFragments, addFragments, hkept, happend]
    rfl
  | cons first rest =>
    rw [hkept] at hfits
    rw [hkept, List.cons_append] at happend
    obtain ⟨hfirst, hrest⟩ := List.forall_mem_cons.1 hfits
    have hparts : ∀ part ∈ rest.map fun f => (f.leading, f.body), Fits part.2 :=
      List.forall_mem_map.2 hrest
    rw [addFragments_of_filterMap hkept, addFragments_of_filterMap (List.filterMap_cons_some rfl),
      addFragments_of_filterMap happend, h.concat_concat hfirst hparts, List.map_append,
      List.map_append, Signature.concat_append]

/-- A fragment alone loses its leading joiner and nothing else. -/
theorem addFragments_singleton (h : d.Rows Fits) {x : Option (Fragment φ)}
    (hx : ∀ f ∈ x, Fits f.body) : d.addFragments [x] = x.map Fragment.detached := by
  cases x with
  | none => rfl
  | some f =>
    have hbody := h.concat_nil (hx f rfl)
    rw [addFragments_of_filterMap (List.filterMap_cons_some rfl), List.filterMap_nil, List.map_nil,
      hbody]
    rfl

end Rows

end Dialect

/-! ### Assembled queries -/

/-- The query without its leading joiner. -/
def Query.detached : Query → Query
  | .relational fragment => .relational (fragment.map Fragment.detached)
  | .document fragment => .document (fragment.map Fragment.detached)

/-- Without its leading joiner a query says what it said. -/
theorem Query.detached_same (q : Query) : q.detached.leading = none ∧ q.detached.sql? = q.sql? ∧
    q.detached.parameters = q.parameters ∧ q.detached.document? = q.document? ∧
      q.detached.signature? = q.signature? := by
  obtain (- | f) | (- | f) := q <;> exact ⟨rfl, rfl, rfl, rfl, rfl⟩

namespace Compiler

/-- The query is the outcome of some assembly. -/
def Assembles (c : Compiler) (q : Query) : Prop := ∃ a : Assembly, a.clause c = .ok (.compiled q)

variable {c : Compiler}

/-- A compiler assembles its queries in a dialect in whose texts or filters rows may be put together
in steps. -/
theorem exists_rows (c : Compiler) :
    ∃ (φ : Type) (d : Dialect φ) (query : Option (Fragment φ) → Query) (Fits : φ → Prop),
      c.Speaks d query ∧ d.Rows Fits ∧ (∀ x, query (x.map Fragment.detached) = (query x).detached) ∧
        ∀ q, c.Assembles q → ∃ x, q = query x ∧ ∀ f ∈ x, Fits f.body := by
  obtain ⟨- | -, placeholder⟩ := c
  · refine ⟨_, _, _, _, speaks_relational placeholder, Dialect.rows_relational placeholder,
      fun _ => rfl, fun q hq => ?_⟩
    obtain ⟨a, ha⟩ := hq
    obtain ⟨x, -, rfl⟩ := Assembly.yields_of_clause (speaks_relational placeholder) ha
    exact ⟨x, rfl, fun _ _ => trivial⟩
  · refine ⟨_, _, _, _, speaks_document placeholder, Dialect.rows_document, fun _ => rfl,
      fun q hq => ?_⟩
    obtain ⟨a, ha⟩ := hq
    obtain ⟨x, rfl, hx⟩ :=
      Assembly.exists_madeOf (speaks_document placeholder) Dialect.keeps_document ha
    refine ⟨x, rfl, fun f hf => ?_⟩
    obtain rfl : x = some f := hf
    exact hx.1

section Add

variable {φ : Type} {d : Dialect φ} {query : Option (Fragment φ) → Query} {Fits : φ → Prop}

/-- The queries of fragments side by side. -/
theorem add_queries (h : c.Speaks d query) (xs : List (Option (Fragment φ))) :
    c.add (xs.map fun x => .compiled (query x)) = .ok (query (d.addFragments xs)) := by
  have hresolve : (xs.map fun x => Clause.compiled (query x)).mapM d.resolve = .ok xs := by
    rw [mapM_eq_ok_iff, List.forall₂_map_left_iff, List.forall₂_same]
    intro x _
    rw [Dialect.resolve, h.ofQuery?]
  rw [add, h.assemble, Dialect.added, hresolve]
  rfl

/-- Queries of fragments are a list of such. -/
theorem exists_fragments {xs : List Query}
    (hxs : ∀ q ∈ xs, ∃ x, q = query x ∧ ∀ f ∈ x, Fits f.body) :
    ∃ fragments : List (Option (Fragment φ)),
      xs.map Clause.compiled = fragments.map (fun x => .compiled (query x)) ∧
        ∀ x ∈ fragments, ∀ f ∈ x, Fits f.body := by
  obtain ⟨fragments, hall⟩ := exists_forall₂ hxs
  refine ⟨fragments, ?_, fun x hx => ?_⟩
  · rw [← List.forall₂_eq_eq_eq, List.forall₂_map_left_iff, List.forall₂_map_right_iff]
    exact hall.imp fun q x hqx => congrArg Clause.compiled hqx.1
  · obtain ⟨q, -, -, hfits⟩ := exists_mem_of_forall₂ hall hx
    exact hfits

end Add

/-- **Queries side by side, step by step.** For either target, let some assembled queries be put
side by side, and others behind the outcome. All of these steps succeed, and the last gives the
query that all of them side by side give at once; any of them may be empty. One assembled query
alone keeps its text and parameters or its document, and its signature, and loses its leading
joiner. -/
theorem add_stepwise {c : Compiler} :
    (∀ {xs ys : List Query}, (∀ q ∈ xs, c.Assembles q) → (∀ q ∈ ys, c.Assembles q) →
      ∃ q r, c.add (xs.map .compiled) = .ok q ∧
        c.add (.compiled q :: ys.map .compiled) = .ok r ∧
        c.add ((xs ++ ys).map .compiled) = .ok r) ∧
    ∀ {q : Query}, c.Assembles q → ∃ r, c.add [.compiled q] = .ok r ∧ r.leading = none ∧
      r.sql? = q.sql? ∧ r.parameters = q.parameters ∧ r.document? = q.document? ∧
        r.signature? = q.signature? := by
  obtain ⟨φ, d, query, Fits, h, hrows, hdetached, hassembled⟩ := c.exists_rows
  refine ⟨fun {xs ys} hxs hys => ?_, fun {q} hq => ?_⟩
  · obtain ⟨first, hfirst, hfits⟩ := exists_fragments fun q hq => hassembled q (hxs q hq)
    obtain ⟨others, hothers, -⟩ := exists_fragments fun q hq => hassembled q (hys q hq)
    refine ⟨query (d.addFragments first), query (d.addFragments (first ++ others)), ?_, ?_, ?_⟩
    · rw [hfirst, add_queries h]
    · rw [← hrows.addFragments_append hfits, ← add_queries h, List.map_cons, hothers]
    · rw [List.map_append, hfirst, hothers, ← List.map_append, add_queries h]
  · obtain ⟨x, rfl, hfits⟩ := hassembled q hq
    refine ⟨(query x).detached, ?_, (query x).detached_same⟩
    rw [← hdetached, ← hrows.addFragments_singleton hfits, ← add_queries h]
    rfl

/-- An empty query and a nested disjunction first, and a conjunction behind these. -/
theorem add_stepwise_nested : ∃ p p' q r s,
    (Assembly.compile (.or [.isNull "a", .or [.isNull "b", .isNull "c"]])).clause ⟨.document, "?"⟩ =
      .ok (.compiled p) ∧
    (Assembly.join .and [.empty, .node (.isNull "d")]).clause ⟨.document, "?"⟩ =
      .ok (.compiled p') ∧
    add ⟨.document, "?"⟩ [.compiled (.empty .document), .compiled p] = .ok q ∧
    add ⟨.document, "?"⟩ [.compiled q, .compiled p'] = .ok r ∧
    add ⟨.document, "?"⟩ [.compiled (.empty .document), .compiled p, .compiled p'] = .ok r ∧
    p'.leading = some .and ∧ add ⟨.document, "?"⟩ [.compiled p'] = .ok s ∧ s.leading = none ∧
    s.document? = p'.document? := by
  obtain ⟨p, hp⟩ : ∃ p,
    (Assembly.compile (.or [.isNull "a", .or [.isNull "b", .isNull "c"]])).clause
      ⟨.document, "?"⟩ = .ok (.compiled p) := ⟨_, rfl⟩
  obtain ⟨p', hp', hleading⟩ : ∃ p', (Assembly.join .and [.empty, .node (.isNull "d")]).clause
    ⟨.document, "?"⟩ = .ok (.compiled p') ∧ p'.leading = some .and := ⟨_, rfl, rfl⟩
  have hempty : Assembles ⟨.document, "?"⟩ (.empty .document) := ⟨.empty, rfl⟩
  obtain ⟨q, r, hq, hr, hall⟩ := add_stepwise.1
    (List.forall_mem_cons.2 ⟨hempty, List.forall_mem_singleton.2 ⟨_, hp⟩⟩)
    (List.forall_mem_singleton.2 ⟨_, hp'⟩)
  obtain ⟨s, hs, hdetached, -, -, hdocument, -⟩ := add_stepwise.2 ⟨_, hp'⟩
  exact ⟨p, p', q, r, s, hp, hp', hq, hr, hall, hleading, hs, hdetached, hdocument⟩

end Compiler

end QueryCache
