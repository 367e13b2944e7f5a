import QueryCache.Proofs.Query.Assembly

/-!
# What queries are made of

Whatever the steps in which a query is assembled, its text or filter is made of its conditions from
left to right. What this means is a relation between conditions in a row and texts or filters; if
each operation of a dialect keeps the relation, then so does every assembly.

## Main definitions

* `Dialect.Keeps` : the operations of a dialect keep a relation.
* `Dialect.MadeOf` : a fragment, possibly empty, is made of conditions in a row.

## Main results

* `Dialect.Keeps.preserves` : what is kept of texts or filters is preserved of fragments.
* `Assembly.exists_madeOf` : what an assembled query is made of.
-/

namespace QueryCache

namespace Dialect

variable {φ : Type} {d : Dialect φ} {t : Target} {R : List Condition → φ → Prop}

/-- The operations of a dialect keep a relation between conditions in a row and texts or filters. -/
structure Keeps (d : Dialect φ) (R : List Condition → φ → Prop) : Prop where
  leaf : ∀ {c body}, d.leaf c = .ok (some body) → R [c] body
  join : ∀ {j row body rows bodies}, R row body → List.Forall₂ R rows bodies →
    R (row ++ rows.flatten) (d.join j body bodies)
  concat : ∀ {row body rows parts}, R row body →
    List.Forall₂ (fun row part => R row part.2) rows parts →
      R (row ++ rows.flatten) (d.concat body parts)
  group : ∀ {wrap row body}, d.group = .ok wrap → R row body → R row (wrap body)

/-- A fragment is made of conditions in a row; the empty one of none. -/
def MadeOf (R : List Condition → φ → Prop) (row : List Condition) : Option (Fragment φ) → Prop
  | none => row = []
  | some fragment => R row fragment.body

/-- The fragments that are not empty are made of all conditions. -/
theorem exists_rows {rows : List (List Condition)} {xs : List (Option (Fragment φ))}
    (h : List.Forall₂ (MadeOf R) rows xs) :
    ∃ rows', List.Forall₂ (fun row fragment => R row fragment.body) rows' (xs.filterMap id) ∧
      rows'.flatten = rows.flatten := by
  induction h with
  | nil => exact ⟨[], .nil, rfl⟩
  | @cons row x rows xs hx _ ih =>
    obtain ⟨rows', hrows, hflatten⟩ := ih
    rw [List.flatten_cons, ← hflatten]
    cases x with
    | none =>
      obtain rfl : row = [] := hx
      exact ⟨rows', hrows, rfl⟩
    | some fragment => exact ⟨row :: rows', .cons hx hrows, rfl⟩

/-- **What operations keep** of texts or filters they preserve of fragments. -/
theorem Keeps.preserves (hR : d.Keeps R) (hd : d.Lawful t) : d.Preserves t (MadeOf R) where
  leaf := by
    intro c x h
    rw [ofCondition] at h
    cases hc : d.leaf c with
    | error e => simp [hc] at h
    | ok form =>
      have hcounts := hd.isSome_leaf hc
      rw [hc] at h
      cases h
      cases form with
      | none => exact List.filter_cons_of_neg (by simp [← hcounts])
      | some body =>
        rw [List.filter_cons_of_pos (by simp [← hcounts])]
        exact hR.leaf hc
  join := by
    intro rows xs j h
    obtain ⟨rows', hrows, hflatten⟩ := exists_rows h
    rw [← hflatten, joinFragments]
    generalize xs.filterMap id = fragments at hrows ⊢
    cases hrows with
    | nil => rfl
    | cons hfirst hrest => exact hR.join hfirst (List.forall₂_map_right_iff.2 hrest)
  add := by
    intro rows xs h
    obtain ⟨rows', hrows, hflatten⟩ := exists_rows h
    rw [← hflatten, addFragments]
    generalize xs.filterMap id = fragments at hrows ⊢
    cases hrows with
    | nil => rfl
    | cons hfirst hrest => exact hR.concat hfirst (List.forall₂_map_right_iff.2 hrest)
  group := by
    intro row x y h hy
    rw [groupFragment] at hy
    cases hwrap : d.group with
    | error e =>
      rw [hwrap] at hy
      cases hy
    | ok wrap =>
      rw [hwrap] at hy
      cases hy
      cases x with
      | none => exact h
      | some fragment => exact hR.group hwrap h

end Dialect

/-- **The outcome of an assembly** is the query of a fragment that is made of its conditions. -/
theorem Assembly.exists_madeOf {φ : Type} {c : Compiler} {d : Dialect φ}
    {query : Option (Fragment φ) → Query} {R : List Condition → φ → Prop} {a : Assembly}
    (h : c.Speaks d query) (hR : d.Keeps R) {q : Query} (hq : a.clause c = .ok (.compiled q)) :
    ∃ x, q = query x ∧ Dialect.MadeOf R (a.leaves c.target) x := by
  obtain ⟨x, hx, rfl⟩ := yields_of_clause h hq
  exact ⟨x, rfl, hx.preserves h (hR.preserves h.lawful)⟩

end QueryCache
