import QueryCache.Proofs.Predicate.Truth
import QueryCache.Proofs.Related
import QueryCache.Query.Compiler

/-!
# Compilation along a tree

What a fragment says about a tree is a relation between texts or filters and trees. Such a relation
is carried along the compilation of a tree node by node: children that come out empty are exactly
those of which nothing is left when the tree is pruned, so that a joined fragment stands for a node
over the pruned children.

## Main definitions

* `Dialect.StandsFor` : a fragment, possibly empty, is related to what is left of a tree.

## Main results

* `Dialect.compile_and_eq_ok_iff`, `Dialect.compile_or_eq_ok_iff`,
  `Dialect.compile_group_eq_ok_iff` : when a node compiles, and to what.
* `Dialect.joined_eq_ok_iff`, `Dialect.added_eq_ok_iff`, `Dialect.grouped_eq_ok_iff` : the same of
  the steps over children.
* `Dialect.standsFor_join` : a joined fragment stands for a node over what is left of the children.
-/

namespace QueryCache.Dialect

variable {φ : Type} (d : Dialect φ)

/-! ### Compiling nodes -/

theorem compile_leaf (c : Condition) : d.compile (.leaf c) = d.ofCondition c := by rw [compile]

theorem compileAll_eq_mapM : (children : List Predicate) →
    d.compileAll children = children.mapM d.compile
  | [] => by rw [compileAll]; rfl
  | p :: rest => by
      rw [compileAll, compileAll_eq_mapM rest, List.mapM_cons]
      cases d.compile p with
      | error e => rfl
      | ok x => cases rest.mapM d.compile <;> rfl

/-- Children compile together exactly if each of them compiles, to what each compiles to. -/
theorem compileAll_eq_ok_iff {children : List Predicate} {xs : List (Option (Fragment φ))} :
    d.compileAll children = .ok xs ↔ List.Forall₂ (fun p x => d.compile p = .ok x) children xs := by
  rw [compileAll_eq_mapM, mapM_eq_ok_iff]

/-- A conjunction compiles exactly if each child compiles. -/
theorem compile_and_eq_ok_iff {children : List Predicate} {x : Option (Fragment φ)} :
    d.compile (.and children) = .ok x ↔
      ∃ xs, List.Forall₂ (fun p y => d.compile p = .ok y) children xs ∧
        d.joinFragments .and xs = x := by
  simp only [← compileAll_eq_ok_iff]
  rw [compile]
  cases d.compileAll children <;> simp

/-- A disjunction compiles exactly if each child compiles. -/
theorem compile_or_eq_ok_iff {children : List Predicate} {x : Option (Fragment φ)} :
    d.compile (.or children) = .ok x ↔
      ∃ xs, List.Forall₂ (fun p y => d.compile p = .ok y) children xs ∧
        d.joinFragments .or xs = x := by
  simp only [← compileAll_eq_ok_iff]
  rw [compile]
  cases d.compileAll children <;> simp

theorem compile_group_eq_ok_iff {p : Predicate} {x : Option (Fragment φ)} :
    d.compile (.group p) = .ok x ↔ ∃ y, d.compile p = .ok y ∧ d.groupFragment y = .ok x := by
  rw [compile]
  cases d.compile p <;> simp

/-- Every condition of a tree that compiles has a form. -/
theorem exists_leaf_of_compile (p : Predicate) {x : Option (Fragment φ)} (h : d.compile p = .ok x) :
    ∀ c ∈ p.leaves, ∃ form, d.leaf c = .ok form := by
  have node (children : List Predicate) {xs : List (Option (Fragment φ))}
      (ih : ∀ p ∈ children, ∀ {x}, d.compile p = .ok x →
        ∀ c ∈ p.leaves, ∃ form, d.leaf c = .ok form)
      (hxs : List.Forall₂ (fun p x => d.compile p = .ok x) children xs) :
      ∀ c ∈ Predicate.leavesOfAll children, ∃ form, d.leaf c = .ok form := by
    intro c hc
    obtain ⟨p, hp, hcp⟩ := Predicate.mem_leavesOfAll.1 hc
    obtain ⟨i, hi, rfl⟩ := List.mem_iff_getElem.1 hp
    exact ih _ hp (hxs.get hi (hxs.length_eq ▸ hi)) c hcp
  induction p using Predicate.inductionOn generalizing x with
  | leaf c =>
    intro c' hc'
    obtain rfl : c' = c := by simpa [Predicate.leaves] using hc'
    rw [compile_leaf, ofCondition] at h
    cases hc : d.leaf c' with
    | error e => simp [hc] at h
    | ok form => exact ⟨form, rfl⟩
  | and children ih =>
    obtain ⟨xs, hxs, -⟩ := d.compile_and_eq_ok_iff.1 h
    exact node children ih hxs
  | or children ih =>
    obtain ⟨xs, hxs, -⟩ := d.compile_or_eq_ok_iff.1 h
    exact node children ih hxs
  | group p ih =>
    obtain ⟨y, hy, -⟩ := d.compile_group_eq_ok_iff.1 h
    exact ih hy

/-! ### Steps over children -/

variable {children : List Clause} {x : Option (Fragment φ)}

/-- A step over children gives a result exactly if each child is resolved. -/
theorem map_mapM_eq_ok_iff {f : List (Option (Fragment φ)) → Option (Fragment φ)} :
    (children.mapM d.resolve).map f = .ok x ↔
      ∃ xs, List.Forall₂ (fun k y => d.resolve k = .ok y) children xs ∧ f xs = x := by
  simp only [← mapM_eq_ok_iff]
  cases children.mapM d.resolve <;> simp [Except.map]

theorem joined_eq_ok_iff {j : Joiner} : d.joined j children = .ok x ↔
    ∃ xs, List.Forall₂ (fun k y => d.resolve k = .ok y) children xs ∧ d.joinFragments j xs = x :=
  d.map_mapM_eq_ok_iff

theorem added_eq_ok_iff : d.added children = .ok x ↔
    ∃ xs, List.Forall₂ (fun k y => d.resolve k = .ok y) children xs ∧ d.addFragments xs = x :=
  d.map_mapM_eq_ok_iff

theorem grouped_eq_ok_iff {child : Clause} : d.grouped child = .ok x ↔
    ∃ y, d.resolve child = .ok y ∧ d.groupFragment y = .ok x := by
  rw [grouped]
  cases d.resolve child <;> simp [bind, Except.bind]

/-! ### Fragments that stand for trees -/

/-- A fragment stands for a tree if it is empty when nothing is left of the tree, and is otherwise
related to what is left. -/
def StandsFor (keep : Condition → Bool) (R : Predicate → φ → Prop) (p : Predicate)
    (x : Option (Fragment φ)) : Prop :=
  Option.Rel (fun t fragment => R t fragment.body) (p.prune? keep) x

variable {d} {keep : Condition → Bool} {R R' : Predicate → φ → Prop}

/-- Joined fragments stand for a node over what is left of the children, if the joined bodies are
related to the node. -/
theorem standsFor_join {j : Joiner} {node : List Predicate → Predicate} {children : List Predicate}
    {xs : List (Option (Fragment φ))}
    (hprune : (node children).prune? keep =
      Predicate.nodeOver node (children.filterMap (Predicate.prune? keep)))
    (hjoin : ∀ t ts y ys, R t y → List.Forall₂ R ts ys → R' (node (t :: ts)) (d.join j y ys))
    (h : List.Forall₂ (StandsFor keep R) children xs) :
    StandsFor keep R' (node children) (d.joinFragments j xs) := by
  have kept : List.Forall₂ (fun t fragment => R t fragment.body)
      (children.filterMap (Predicate.prune? keep)) (xs.filterMap id) :=
    List.rel_filterMap (fun _ _ hx => hx) h
  unfold StandsFor joinFragments
  rw [hprune]
  generalize children.filterMap (Predicate.prune? keep) = left at kept ⊢
  generalize xs.filterMap id = fragments at kept ⊢
  cases kept with
  | nil => exact .none
  | cons hfirst hrest =>
    refine .some (hjoin _ _ _ _ hfirst ?_)
    exact (List.forall₂_map_right_iff).2 hrest

end QueryCache.Dialect
