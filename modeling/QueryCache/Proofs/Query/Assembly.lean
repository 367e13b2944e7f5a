import QueryCache.Proofs.Query.Signature

/-!
# Assembled queries

A query is assembled in steps: predicates are compiled, queries are joined, put side by side and put
in parentheses, and the children of a step are predicates or the outcomes of other steps. Whatever
the steps, the signature of the outcome is made of its conditions in the order of the traversal.

## Main definitions

* `Assembly` : a way of assembling a query.
* `Assembly.leaves` : the conditions of an assembly that go into queries for a target.
* `Assembly.clause` : the outcome of an assembly, as a child of a further step.
* `Compiler.Speaks`, `Assembly.Yields` : assembly in a dialect, step by step.

## Main results

* `Assembly.yields_compile`, `Assembly.yields_join`, `Assembly.yields_add`,
  `Assembly.yields_group` : what each step yields.
* `Assembly.Yields.preserves` : what holds of the operations of a dialect holds of assemblies.
* `Assembly.signature_of_clause` : the outcome of an assembly has the signature of its conditions.
* `Assembly.signature_of_leaves` : the parts of this signature, and what they do not depend on.
-/

namespace QueryCache

/-- A way of assembling a query. -/
inductive Assembly where
  /-- A predicate that is left to the next step. -/
  | node (p : Predicate)
  | empty
  | compile (p : Predicate)
  | join (j : Joiner) (parts : List Assembly)
  | add (parts : List Assembly)
  | group (part : Assembly)

/-- Joins children under a joiner. -/
def Compiler.join (c : Compiler) : Joiner → List Clause → Except CompileError Query
  | .and => c.and
  | .or => c.or

namespace Assembly

/-- Induction on an assembly, with the statement for every part of a step. -/
@[elab_as_elim]
theorem inductionOn {motive : Assembly → Prop} (a : Assembly)
    (node : ∀ p, motive (.node p))
    (empty : motive .empty)
    (compile : ∀ p, motive (.compile p))
    (join : ∀ j parts, (∀ a ∈ parts, motive a) → motive (.join j parts))
    (add : ∀ parts, (∀ a ∈ parts, motive a) → motive (.add parts))
    (group : ∀ a, motive a → motive (.group a)) : motive a :=
  match a with
  | .node p => node p
  | .empty => empty
  | .compile p => compile p
  | .join j parts => join j parts fun a _ => inductionOn a node empty compile join add group
  | .add parts => add parts fun a _ => inductionOn a node empty compile join add group
  | .group a => group a (inductionOn a node empty compile join add group)

/-! ### Conditions and outcomes -/

mutual

/-- The conditions of an assembly, from left to right, that go into queries for a target. -/
def leaves (t : Target) : Assembly → List Condition
  | .node p => p.leaves.filter (Condition.counts t)
  | .empty => []
  | .compile p => p.leaves.filter (Condition.counts t)
  | .join _ parts => leavesOfAll t parts
  | .add parts => leavesOfAll t parts
  | .group part => leaves t part

/-- The conditions of several assemblies, one after the other. -/
def leavesOfAll (t : Target) : List Assembly → List Condition
  | [] => []
  | a :: rest => leaves t a ++ leavesOfAll t rest

end

theorem leavesOfAll_eq_flatMap (t : Target) (parts : List Assembly) :
    leavesOfAll t parts = parts.flatMap (leaves t) := by
  induction parts with
  | nil => rfl
  | cons a rest ih => rw [leavesOfAll, ih, List.flatMap_cons]

mutual

/-- The outcome of an assembly, as a child of a further step. -/
def clause (c : Compiler) : Assembly → Except CompileError Clause
  | .node p => .ok (.node p)
  | .empty => .ok (.compiled (.empty c.target))
  | .compile p => (c.compile p).map .compiled
  | .join j parts =>
    match clauses c parts with
    | .error e => .error e
    | .ok children => (c.join j children).map .compiled
  | .add parts =>
    match clauses c parts with
    | .error e => .error e
    | .ok children => (c.add children).map .compiled
  | .group part =>
    match clause c part with
    | .error e => .error e
    | .ok child => (c.group child).map .compiled

/-- The outcomes of several assemblies; the first one that fails decides. -/
def clauses (c : Compiler) : List Assembly → Except CompileError (List Clause)
  | [] => .ok []
  | a :: rest =>
    match clause c a with
    | .error e => .error e
    | .ok first =>
      match clauses c rest with
      | .error e => .error e
      | .ok others => .ok (first :: others)

end

variable {c : Compiler}

theorem clauses_eq_mapM : (parts : List Assembly) → clauses c parts = parts.mapM (clause c)
  | [] => by rw [clauses]; rfl
  | a :: rest => by
      rw [clauses, clauses_eq_mapM rest, List.mapM_cons]
      cases clause c a with
      | error e => rfl
      | ok k => cases rest.mapM (clause c) <;> rfl

/-- Parts have outcomes exactly if each part has its own. -/
theorem clauses_eq_ok_iff {parts : List Assembly} {children : List Clause} :
    clauses c parts = .ok children ↔
      List.Forall₂ (fun a k => a.clause c = .ok k) parts children := by
  rw [clauses_eq_mapM, mapM_eq_ok_iff]

end Assembly

/-! ### Steps in a dialect -/

/-- A compiler assembles its queries in a dialect. -/
structure Compiler.Speaks {φ : Type} (c : Compiler) (d : Dialect φ)
    (query : Option (Fragment φ) → Query) : Prop where
  lawful : d.Lawful c.target
  empty : query none = .empty c.target
  ofQuery? : ∀ x, d.ofQuery? (query x) = some x
  assemble : ∀ run : {ψ : Type} → Dialect ψ → Except CompileError (Option (Fragment ψ)),
    c.assemble run = (run d).map query

theorem Compiler.speaks_relational (placeholder : String) :
    Speaks ⟨.relational, placeholder⟩ (.relational placeholder) .relational :=
  ⟨Dialect.lawful_relational placeholder, rfl, fun _ => rfl, fun _ => rfl⟩

theorem Compiler.speaks_document (placeholder : String) :
    Speaks ⟨.document, placeholder⟩ .document .document :=
  ⟨Dialect.lawful_document, rfl, fun _ => rfl, fun _ => rfl⟩

theorem Compiler.exists_speaks : (c : Compiler) →
    ∃ (φ : Type) (d : Dialect φ) (query : Option (Fragment φ) → Query), c.Speaks d query
  | ⟨.relational, placeholder⟩ => ⟨_, _, _, speaks_relational placeholder⟩
  | ⟨.document, placeholder⟩ => ⟨_, _, _, speaks_document placeholder⟩

namespace Assembly

/-- An assembly yields a fragment: a further step over it finds this fragment. -/
def Yields {φ : Type} (c : Compiler) (d : Dialect φ) (a : Assembly) (x : Option (Fragment φ)) :
    Prop :=
  ∃ k, a.clause c = .ok k ∧ d.resolve k = .ok x

section Yields

variable {φ : Type} {d : Dialect φ} {query : Option (Fragment φ) → Query} {a : Assembly}
  {x : Option (Fragment φ)}

theorem forall₂_yields_iff {parts : List Assembly} {xs : List (Option (Fragment φ))} :
    List.Forall₂ (Yields c d) parts xs ↔ ∃ children, clauses c parts = .ok children ∧
      List.Forall₂ (fun k x => d.resolve k = .ok x) children xs := by
  simp only [clauses_eq_ok_iff]
  exact forall₂_comp_iff

section Step

variable {α : Type} {made : Except CompileError α}
  {run : α → {ψ : Type} → Dialect ψ → Except CompileError (Option (Fragment ψ))}

/-- The outcome of a step is a query of the dialect. -/
theorem clause_step (h : c.Speaks d query)
    (ha : a.clause c = made >>= fun m => (c.assemble (run m)).map .compiled) {k : Clause} :
    a.clause c = .ok k ↔ ∃ m y, made = .ok m ∧ run m d = .ok y ∧ k = .compiled (query y) := by
  rw [ha]
  cases made with
  | error e => simp [bind, Except.bind]
  | ok m =>
    simp only [bind, Except.bind, h.assemble]
    cases hy : run m d <;> simp [Except.map, hy, eq_comm]

/-- What a step yields. -/
theorem yields_step (h : c.Speaks d query)
    (ha : a.clause c = made >>= fun m => (c.assemble (run m)).map .compiled) :
    a.Yields c d x ↔ ∃ m, made = .ok m ∧ run m d = .ok x := by
  have hresolve (y : Option (Fragment φ)) : d.resolve (.compiled (query y)) = .ok y := by
    rw [Dialect.resolve, h.ofQuery?]
  constructor
  · rintro ⟨k, hk, hx⟩
    obtain ⟨m, y, hm, hy, rfl⟩ := (clause_step h ha).1 hk
    obtain rfl := Except.ok.inj ((hresolve y).symm.trans hx)
    exact ⟨m, hm, hy⟩
  · rintro ⟨m, hm, hx⟩
    exact ⟨_, (clause_step h ha).2 ⟨m, x, hm, hx, rfl⟩, hresolve x⟩

end Step

theorem clause_compile (p : Predicate) :
    (compile p).clause c = (.ok () : Except CompileError Unit) >>= fun _ =>
      (c.assemble fun d => d.compile p).map .compiled := by
  rw [clause]
  rfl

theorem clause_join (j : Joiner) (parts : List Assembly) : (join j parts).clause c =
    clauses c parts >>= fun ks => (c.assemble fun d => d.joined j ks).map .compiled := by
  rw [clause]
  cases clauses c parts with
  | error e => rfl
  | ok children => cases j <;> rfl

theorem clause_add (parts : List Assembly) : (add parts).clause c =
    clauses c parts >>= fun ks => (c.assemble fun d => d.added ks).map .compiled := by
  rw [clause]
  cases clauses c parts <;> rfl

theorem clause_group (part : Assembly) : (group part).clause c =
    clause c part >>= fun k => (c.assemble fun d => d.grouped k).map .compiled := by
  rw [clause]
  cases clause c part <;> rfl

theorem yields_node {p : Predicate} : (node p).Yields c d x ↔ d.compile p = .ok x := by
  constructor
  · rintro ⟨k, hk, hx⟩
    cases hk
    exact hx
  · exact fun hx => ⟨.node p, rfl, hx⟩

theorem yields_empty (h : c.Speaks d query) : empty.Yields c d x ↔ x = none := by
  have hresolve : d.resolve (.compiled (.empty c.target)) = .ok none := by
    rw [← h.empty, Dialect.resolve, h.ofQuery?]
  constructor
  · rintro ⟨k, hk, hx⟩
    cases hk
    exact (Except.ok.inj (hresolve.symm.trans hx)).symm
  · rintro rfl
    exact ⟨_, rfl, hresolve⟩

theorem yields_compile (h : c.Speaks d query) {p : Predicate} :
    (compile p).Yields c d x ↔ d.compile p = .ok x := by
  rw [yields_step h (clause_compile p)]
  exact ⟨fun ⟨_, _, hx⟩ => hx, fun hx => ⟨(), rfl, hx⟩⟩

theorem yields_join (h : c.Speaks d query) {j : Joiner} {parts : List Assembly} :
    (join j parts).Yields c d x ↔
      ∃ xs, List.Forall₂ (Yields c d) parts xs ∧ d.joinFragments j xs = x := by
  simp only [yields_step h (clause_join j parts), Dialect.joined_eq_ok_iff, forall₂_yields_iff]
  exact ⟨fun ⟨ks, hks, xs, hxs, hx⟩ => ⟨xs, ⟨ks, hks, hxs⟩, hx⟩,
    fun ⟨xs, ⟨ks, hks, hxs⟩, hx⟩ => ⟨ks, hks, xs, hxs, hx⟩⟩

theorem yields_add (h : c.Speaks d query) {parts : List Assembly} :
    (add parts).Yields c d x ↔
      ∃ xs, List.Forall₂ (Yields c d) parts xs ∧ d.addFragments xs = x := by
  simp only [yields_step h (clause_add parts), Dialect.added_eq_ok_iff, forall₂_yields_iff]
  exact ⟨fun ⟨ks, hks, xs, hxs, hx⟩ => ⟨xs, ⟨ks, hks, hxs⟩, hx⟩,
    fun ⟨xs, ⟨ks, hks, hxs⟩, hx⟩ => ⟨ks, hks, xs, hxs, hx⟩⟩

/-- The outcome of putting parts side by side is the query of what this yields. -/
theorem Yields.clause_add (h : c.Speaks d query) {parts : List Assembly}
    (hx : (add parts).Yields c d x) : (add parts).clause c = .ok (.compiled (query x)) := by
  obtain ⟨children, hchildren, hrun⟩ := (yields_step h (Assembly.clause_add parts)).1 hx
  exact (clause_step h (Assembly.clause_add parts)).2 ⟨children, x, hchildren, hrun, rfl⟩

theorem yields_group (h : c.Speaks d query) {part : Assembly} :
    (group part).Yields c d x ↔ ∃ y, part.Yields c d y ∧ d.groupFragment y = .ok x := by
  simp only [yields_step h (clause_group part), Dialect.grouped_eq_ok_iff]
  exact ⟨fun ⟨k, hk, y, hy, hx⟩ => ⟨y, ⟨k, hk, hy⟩, hx⟩,
    fun ⟨y, ⟨k, hk, hy⟩, hx⟩ => ⟨k, hk, y, hy, hx⟩⟩

/-- A query that an assembly has as its outcome is the query of what it yields. -/
theorem yields_of_clause (h : c.Speaks d query) {q : Query} (hq : a.clause c = .ok (.compiled q)) :
    ∃ x, a.Yields c d x ∧ q = query x := by
  have step {α : Type} {made : Except CompileError α}
      {run : α → {ψ : Type} → Dialect ψ → Except CompileError (Option (Fragment ψ))}
      (ha : a.clause c = made >>= fun m => (c.assemble (run m)).map .compiled) :
      ∃ x, a.Yields c d x ∧ q = query x := by
    obtain ⟨m, x, hm, hx, hk⟩ := (clause_step h ha).1 hq
    exact ⟨x, (yields_step h ha).2 ⟨m, hm, hx⟩, Clause.compiled.inj hk⟩
  cases a with
  | node p => cases hq
  | empty =>
    cases hq
    exact ⟨none, (yields_empty h).2 rfl, h.empty.symm⟩
  | compile p => exact step (clause_compile p)
  | join j parts => exact step (clause_join j parts)
  | add parts => exact step (clause_add parts)
  | group part => exact step (clause_group part)

/-- **What an assembly yields** is related to its conditions as the operations preserve it. -/
theorem Yields.preserves {P : List Condition → Option (Fragment φ) → Prop} (hx : a.Yields c d x)
    (h : c.Speaks d query) (hP : d.Preserves c.target P) : P (a.leaves c.target) x := by
  have rows {parts : List Assembly} {xs : List (Option (Fragment φ))}
      (ih : ∀ a ∈ parts, ∀ {x}, a.Yields c d x → P (a.leaves c.target) x)
      (hxs : List.Forall₂ (Yields c d) parts xs) :
      List.Forall₂ P (parts.map (leaves c.target)) xs :=
    List.forall₂_map_left_iff.2 (forall₂_imp_of_mem hxs fun a ha x hx => ih a ha hx)
  induction a using inductionOn generalizing x with
  | node p => exact hP.compile p (yields_node.1 hx)
  | empty =>
    rw [(yields_empty h).1 hx]
    exact hP.empty
  | compile p => exact hP.compile p ((yields_compile h).1 hx)
  | join j parts ih =>
    obtain ⟨xs, hxs, rfl⟩ := (yields_join h).1 hx
    rw [leaves, leavesOfAll_eq_flatMap]
    exact hP.join j (rows ih hxs)
  | add parts ih =>
    obtain ⟨xs, hxs, rfl⟩ := (yields_add h).1 hx
    rw [leaves, leavesOfAll_eq_flatMap]
    exact hP.add (rows ih hxs)
  | group part ih =>
    obtain ⟨y, hy, hgroup⟩ := (yields_group h).1 hx
    exact hP.group (ih hy) hgroup

/-- **What an assembly yields has the signature of its conditions.** -/
theorem Yields.signature (h : c.Speaks d query) (hx : a.Yields c d x) :
    Dialect.HasSignature (a.leaves c.target) x :=
  hx.preserves h h.lawful.preserves_hasSignature

end Yields

/-- **The outcome of an assembly has the signature of its conditions.** -/
theorem signature_of_clause {a : Assembly} {q : Query} (hq : a.clause c = .ok (.compiled q)) :
    q.signature? = Signature.concat? ((a.leaves c.target).map Signature.ofCondition) := by
  obtain ⟨φ, d, query, h⟩ := c.exists_speaks
  obtain ⟨x, hx, rfl⟩ := yields_of_clause h hq
  rw [← h.lawful.signature_ofQuery (h.ofQuery? x)]
  exact hx.signature h

end Assembly

/-! ### The parts of signatures -/

theorem Query.isEmpty_eq (q : Query) : q.isEmpty = q.signature?.isNone := by
  obtain (fragment | fragment) := q <;> cases fragment <;> rfl

theorem Query.leading_eq_none {q : Query} (h : q.signature? = none) : q.leading = none := by
  obtain (fragment | fragment) := q <;> cases fragment
  all_goals first
    | rfl
    | cases h

/-- Conditions that have a form in condition texts all count. -/
theorem Condition.counts_of_relational {placeholder : String} {c : Condition} {form : Option Sql}
    (h : (Dialect.relational placeholder).leaf c = .ok form) (t : Target) : c.counts t = true := by
  cases t with
  | relational => rfl
  | document =>
    obtain ⟨field, operator, value⟩ := c
    cases operator <;> cases value <;>
      first
        | rfl
        | cases h

namespace Assembly

variable {c c' : Compiler} {a a' : Assembly} {q q' : Query}

theorem outcome_of_leaves_eq_nil (h : a.clause c = .ok (.compiled q))
    (hnil : a.leaves c.target = []) :
    q.isEmpty = true ∧ q.signature? = none ∧ q.leading = none := by
  have hsig := signature_of_clause h
  rw [hnil] at hsig
  have hnone : q.signature? = none := hsig
  exact ⟨by rw [Query.isEmpty_eq, hnone]; rfl, hnone, Query.leading_eq_none hnone⟩

theorem outcome_of_leaves_ne_nil (h : a.clause c = .ok (.compiled q))
    (hne : a.leaves c.target ≠ []) :
    q.isEmpty = false ∧
      q.cacheKey? = some ("_".intercalate
        ((a.leaves c.target).map fun leaf => leaf.operator.name ++ "_" ++ leaf.value.token)) ∧
      q.cacheValue? = some ("_".intercalate
        ((a.leaves c.target).map fun leaf => leaf.value.token)) ∧
      (q.defaultCacheable = true ↔ ∀ leaf ∈ a.leaves c.target, leaf.operator = .equal) := by
  have hsig := signature_of_clause h
  obtain ⟨leaf, rest, hcons⟩ := List.exists_cons_of_ne_nil hne
  rw [hcons] at hsig ⊢
  rw [List.map_cons, Signature.concat?, Signature.concat_map_ofCondition] at hsig
  rw [Query.isEmpty_eq, Query.cacheKey?, Query.cacheValue?, Query.defaultCacheable, hsig]
  refine ⟨rfl, rfl, rfl, ?_⟩
  simp only [Option.any_some, List.all_eq_true]
  refine forall₂_congr fun leaf _ => ?_
  cases leaf.operator <;> simp [Operator.isDefaultCacheable]

theorem signature_congr (h : a.clause c = .ok (.compiled q))
    (h' : a'.clause c' = .ok (.compiled q'))
    (hleaves : a.leaves c.target = a'.leaves c'.target) : q.signature? = q'.signature? := by
  have hsig := signature_of_clause h
  have hsig' := signature_of_clause h'
  rw [← hleaves] at hsig'
  exact hsig.trans hsig'.symm

/-- All conditions of a tree count that compiles to a condition text. -/
theorem leaves_compile_of_relational {placeholder : String} {p : Predicate}
    (h : Compiler.compile ⟨.relational, placeholder⟩ p = .ok q) (t : Target) :
    (compile p).leaves t = p.leaves := by
  obtain ⟨x, hx⟩ : ∃ x, (Dialect.relational placeholder).compile p = .ok x := by
    cases hx : (Dialect.relational placeholder).compile p with
    | error e => simp [Compiler.compile, Compiler.assemble, hx, Except.map] at h
    | ok x => exact ⟨x, rfl⟩
  rw [leaves, List.filter_eq_self]
  intro leaf hleaf
  obtain ⟨form, hform⟩ := Dialect.exists_leaf_of_compile _ p hx leaf hleaf
  exact Condition.counts_of_relational hform t

/-- **Signatures are made of conditions alone.** An assembled query without conditions is empty and
has neither signature nor joiner. The signature of one with conditions lists their operators and
value tokens, and their value tokens alone, and says whether all of them are equalities. So queries
with the same conditions have the same signature, however they were assembled and for whatever
target, and so do the two queries of a tree that compiles for both targets. -/
theorem signature_of_leaves :
    (∀ {c : Compiler} {a : Assembly} {q : Query}, a.clause c = .ok (.compiled q) →
      (a.leaves c.target = [] → q.isEmpty = true ∧ q.signature? = none ∧ q.leading = none) ∧
      (a.leaves c.target ≠ [] → q.isEmpty = false ∧
        q.cacheKey? = some ("_".intercalate
          ((a.leaves c.target).map fun leaf => leaf.operator.name ++ "_" ++ leaf.value.token)) ∧
        q.cacheValue? = some ("_".intercalate
          ((a.leaves c.target).map fun leaf => leaf.value.token)) ∧
        (q.defaultCacheable = true ↔ ∀ leaf ∈ a.leaves c.target, leaf.operator = .equal))) ∧
    (∀ {c c' : Compiler} {a a' : Assembly} {q q' : Query}, a.clause c = .ok (.compiled q) →
      a'.clause c' = .ok (.compiled q') → a.leaves c.target = a'.leaves c'.target →
        q.signature? = q'.signature?) ∧
    ∀ {placeholder placeholder' : String} {p : Predicate} {q q' : Query},
      Compiler.compile ⟨.relational, placeholder⟩ p = .ok q →
      Compiler.compile ⟨.document, placeholder'⟩ p = .ok q' → q.signature? = q'.signature? := by
  refine ⟨fun h => ⟨outcome_of_leaves_eq_nil h, outcome_of_leaves_ne_nil h⟩, signature_congr, ?_⟩
  intro placeholder placeholder' p q q' h h'
  have hc : (compile p).clause ⟨.relational, placeholder⟩ = .ok (.compiled q) := by
    rw [clause, h]
    rfl
  have hc' : (compile p).clause ⟨.document, placeholder'⟩ = .ok (.compiled q') := by
    rw [clause, h']
    rfl
  have hleaves := leaves_compile_of_relational h
  exact signature_congr hc hc' ((hleaves _).trans (hleaves _).symm)

/-- A row for documents of a tree, one of whose conditions is left out, and of an empty query and a
tree under a disjunction. -/
theorem signature_of_leaves_row : ∃ q,
    clause ⟨.document, "?"⟩ (.add [
      .compile (.and [.equal "tenant" (.str "t1"), .isIn "role" (.str "admin")]),
      .join .or [.empty, .node (.like "name" (.str "a%"))]]) = .ok (.compiled q) ∧
    q.cacheKey? = some "EQUAL_t1_LIKE_a%" ∧ q.cacheValue? = some "t1_a%" ∧
    q.defaultCacheable = false := by
  obtain ⟨q, hq⟩ : ∃ q, clause ⟨.document, "?"⟩ (.add [
      .compile (.and [.equal "tenant" (.str "t1"), .isIn "role" (.str "admin")]),
      .join .or [.empty, .node (.like "name" (.str "a%"))]]) = .ok (.compiled q) := ⟨_, rfl⟩
  obtain ⟨-, hkey, hvalue, hcacheable⟩ := (signature_of_leaves.1 hq).2 (List.cons_ne_nil _ _)
  have hlike : q.defaultCacheable ≠ true := fun h =>
    Operator.noConfusion (hcacheable.1 h ⟨"name", .like, .str "a%"⟩ (.tail _ (.head _)))
  refine ⟨q, hq, hkey.trans ?_, hvalue.trans ?_, by simpa using hlike⟩
  · decide +kernel
  · decide +kernel

end Assembly

end QueryCache
