import QueryCache.Proofs.Query.Assembly

/-!
# Failures of compilation and assembly

A condition text cannot be made of a list comparison without a list or with an empty one, and a
filter cannot be made of a group. Whatever stands around it, the first condition in the order of the
traversal that fails decides how a tree fails, and the first child decides how a step over children
fails. A child that compiles may be compiled before the step: neither the outcome of the step nor
its failure changes, so a tree may be compiled as a whole or built from compiled parts.

## Main definitions

* `FirstOf` : how the first member of a list fails that fails at all.
* `Condition.Refused` : how a condition fails for condition texts.
* `Clause.Fails` : how a child fails.
* `Assembly.tree?` : the tree that an assembly builds without putting queries side by side.

## Main results

* `firstOf_flatMap_iff`, `mapM_eq_error_iff_firstOf` : the first failure in lists of lists, and of
  calls made one after the other.
* `Dialect.compile_eq_error_iff_firstOf` : where there are groups, trees fail by their conditions.
* `Dialect.document_compile_eq_error_iff` : filters fail by groups.
* `Assembly.yields_of_tree?` : a tree that is built from parts.
* `Compiler.failures` : all of this of compilers.
-/

namespace QueryCache

/-! ### First failures -/

section FirstOf

variable {α β ε : Type} {Fails : α → ε → Prop} {as : List α} {e : ε}

/-- Some member of a list fails in the given way, and no member before it fails. -/
def FirstOf (Fails : α → ε → Prop) (as : List α) (e : ε) : Prop :=
  ∃ before a after, as = before ++ a :: after ∧ (∀ b ∈ before, ∀ e, ¬ Fails b e) ∧ Fails a e

theorem not_firstOf_nil : ¬ FirstOf Fails [] e := by
  rintro ⟨before, a, after, hsplit, -⟩
  simp at hsplit

theorem firstOf_cons_iff {a : α} :
    FirstOf Fails (a :: as) e ↔ Fails a e ∨ (∀ e, ¬ Fails a e) ∧ FirstOf Fails as e := by
  constructor
  · rintro ⟨- | ⟨b, before⟩, c, after, hsplit, hbefore, hc⟩
    · cases hsplit
      exact .inl hc
    · cases hsplit
      obtain ⟨hb, hbefore⟩ := List.forall_mem_cons.1 hbefore
      exact .inr ⟨hb, before, c, after, rfl, hbefore, hc⟩
  · rintro (ha | ⟨ha, before, c, after, rfl, hbefore, hc⟩)
    · exact ⟨[], a, as, rfl, nofun, ha⟩
    · exact ⟨a :: before, c, after, rfl, List.forall_mem_cons.2 ⟨ha, hbefore⟩, hc⟩

/-- There is a first failure exactly if some member fails. -/
theorem exists_firstOf_iff : (∃ e, FirstOf Fails as e) ↔ ∃ a ∈ as, ∃ e, Fails a e := by
  induction as with
  | nil => simp [not_firstOf_nil]
  | cons a rest ih =>
    simp only [firstOf_cons_iff, exists_or, exists_and_left, ih, List.exists_mem_cons_iff]
    by_cases ha : ∃ e, Fails a e
    · simp [ha]
    · exact or_congr_right (and_iff_right (not_exists.1 ha))

theorem firstOf_congr {Fails' : α → ε → Prop} (h : ∀ a ∈ as, ∀ e, Fails a e ↔ Fails' a e) :
    FirstOf Fails as e ↔ FirstOf Fails' as e := by
  induction as with
  | nil => exact iff_of_false not_firstOf_nil not_firstOf_nil
  | cons a rest ih =>
    obtain ⟨ha, hrest⟩ := List.forall_mem_cons.1 h
    simp only [firstOf_cons_iff, ha, ih hrest]

theorem firstOf_append_iff {bs : List α} : FirstOf Fails (as ++ bs) e ↔
    FirstOf Fails as e ∨ (∀ e, ¬ FirstOf Fails as e) ∧ FirstOf Fails bs e := by
  induction as with
  | nil => simp [not_firstOf_nil]
  | cons a rest ih =>
    rw [List.cons_append, firstOf_cons_iff, firstOf_cons_iff, ih]
    simp only [firstOf_cons_iff, not_or]
    by_cases ha : ∃ e, Fails a e
    · have hsome : ¬ ∀ e, ¬ Fails a e := not_forall_not.2 ha
      simp [hsome]
    · simp [not_exists.1 ha]

/-- The first failure in lists one after the other is that of the first list that has one. -/
theorem firstOf_flatMap_iff {row : β → List α} {bs : List β} :
    FirstOf Fails (bs.flatMap row) e ↔ FirstOf (fun b => FirstOf Fails (row b)) bs e := by
  induction bs with
  | nil => exact iff_of_false not_firstOf_nil not_firstOf_nil
  | cons b rest ih => rw [List.flatMap_cons, firstOf_append_iff, firstOf_cons_iff, ih]

theorem exists_ok_iff {x : Except ε α} : (∃ a, x = .ok a) ↔ ∀ e, x ≠ .error e := by
  cases x <;> simp

/-- Calls one after the other fail as the first of them that fails. -/
theorem mapM_eq_error_iff_firstOf {f : α → Except ε β} :
    as.mapM f = .error e ↔ FirstOf (fun a e => f a = .error e) as e := by
  simp only [mapM_eq_error_iff, FirstOf, exists_ok_iff, ne_eq]

end FirstOf

/-! ### Trees -/

/-- How a condition fails that has no form in condition texts. -/
inductive Condition.Refused : Condition → CompileError → Prop
  | notASequence {c} (list : c.operator.takesSequence) (value : ∀ values, c.value ≠ .arr values) :
      Refused c (.notASequence c.field c.operator.name)
  | emptySequence {c} (list : c.operator.takesSequence) (value : c.value = .arr []) :
      Refused c (.emptySequence c.field c.operator.name)

theorem Condition.exists_refused_iff {c : Condition} : (∃ e, c.Refused e) ↔
    c.operator.takesSequence ∧ ((∀ values, c.value ≠ .arr values) ∨ c.value = .arr []) := by
  constructor
  · rintro ⟨_, ⟨list, value⟩ | ⟨list, value⟩⟩
    · exact ⟨list, .inl value⟩
    · exact ⟨list, .inr value⟩
  · rintro ⟨list, value | value⟩
    · exact ⟨_, .notASequence list value⟩
    · exact ⟨_, .emptySequence list value⟩

/-- A condition has no form in condition texts exactly if it is refused. -/
theorem Sql.ofCondition_eq_error_iff {placeholder : String} {c : Condition} {e : CompileError} :
    ofCondition placeholder c = .error e ↔ c.Refused e := by
  obtain ⟨field, operator, value⟩ := c
  constructor
  · intro h
    cases operator
    case isIn | notIn =>
      cases value
      case arr values =>
        cases values <;> cases h
        exact .emptySequence rfl rfl
      all_goals
        cases h
        exact .notASequence rfl nofun
    all_goals cases h
  · rintro (⟨list, hvalue⟩ | ⟨list, hvalue⟩)
    · cases operator <;> cases list <;> cases value <;>
        first
          | rfl
          | exact (hvalue _ rfl).elim
    · cases hvalue
      cases operator <;> cases list <;> rfl

namespace Dialect

variable {φ : Type} (d : Dialect φ) {e : CompileError}

theorem compile_and_eq_error_iff {children : List Predicate} :
    d.compile (.and children) = .error e ↔
      FirstOf (fun p e => d.compile p = .error e) children e := by
  rw [← mapM_eq_error_iff_firstOf, ← compileAll_eq_mapM, compile]
  cases d.compileAll children <;> simp

theorem compile_or_eq_error_iff {children : List Predicate} : d.compile (.or children) = .error e ↔
    FirstOf (fun p e => d.compile p = .error e) children e := by
  rw [← mapM_eq_error_iff_firstOf, ← compileAll_eq_mapM, compile]
  cases d.compileAll children <;> simp

/-- **Where there are groups, a tree fails** as the first of its conditions that fails. -/
theorem compile_eq_error_iff_firstOf {wrap : φ → φ} (hgroup : d.group = .ok wrap) (p : Predicate)
    {e : CompileError} :
    d.compile p = .error e ↔ FirstOf (fun c e => d.leaf c = .error e) p.leaves e := by
  induction p using Predicate.inductionOn generalizing e with
  | leaf c =>
    rw [compile_leaf, ofCondition, Predicate.leaves, firstOf_cons_iff]
    cases d.leaf c <;> simp [not_firstOf_nil]
  | and children ih =>
    rw [compile_and_eq_error_iff, Predicate.leaves, Predicate.leavesOfAll_eq_flatMap,
      firstOf_flatMap_iff]
    exact firstOf_congr fun p hp e => ih p hp
  | or children ih =>
    rw [compile_or_eq_error_iff, Predicate.leaves, Predicate.leavesOfAll_eq_flatMap,
      firstOf_flatMap_iff]
    exact firstOf_congr fun p hp e => ih p hp
  | group p ih =>
    rw [Predicate.leaves, ← ih, compile]
    cases d.compile p <;> simp [groupFragment, hgroup]

/-- A condition text fails as the first condition that is refused. -/
theorem relational_compile_eq_error_iff {placeholder : String} {p : Predicate} :
    (relational placeholder).compile p = .error e ↔ FirstOf Condition.Refused p.leaves e := by
  rw [compile_eq_error_iff_firstOf _ rfl]
  refine firstOf_congr fun c _ e => ?_
  rw [← Sql.ofCondition_eq_error_iff]
  change (Sql.ofCondition placeholder c).map some = .error e ↔ _
  cases Sql.ofCondition placeholder c <;> simp [Except.map]

/-- **A filter fails** exactly if there is a group in the tree, and always in the same way. -/
theorem document_compile_eq_error_iff {p : Predicate} : document.compile p = .error e ↔
    p.hasGroup = true ∧ e = .unsupported .document "group" := by
  have node {children : List Predicate} {e : CompileError}
      (ih : ∀ p ∈ children, ∀ e, document.compile p = .error e ↔
        p.hasGroup = true ∧ e = .unsupported .document "group") :
      FirstOf (fun p e => document.compile p = .error e) children e ↔
        Predicate.someHasGroup children = true ∧ e = .unsupported .document "group" := by
    rw [firstOf_congr ih]
    clear ih
    induction children with
    | nil => simp [not_firstOf_nil, Predicate.someHasGroup]
    | cons p rest ih =>
      rw [firstOf_cons_iff, ih, Predicate.someHasGroup]
      cases p.hasGroup <;> simp
  induction p using Predicate.inductionOn generalizing e with
  | leaf c => simp [compile_leaf, ofCondition, document, Predicate.hasGroup]
  | and children ih => exact document.compile_and_eq_error_iff.trans (node fun p hp e => ih p hp)
  | or children ih => exact document.compile_or_eq_error_iff.trans (node fun p hp e => ih p hp)
  | group p ih =>
    rw [compile, Predicate.hasGroup]
    cases hp : document.compile p with
    | error e' =>
      obtain ⟨-, rfl⟩ := ih.1 hp
      simp [eq_comm]
    | ok x => simp [groupFragment, document, eq_comm]

end Dialect

/-! ### Children -/

/-- How a child fails: a tree as it fails to compile, and a query for not being of the target. -/
inductive Clause.Fails (c : Compiler) : Clause → CompileError → Prop
  | node {p e} (compile : c.compile p = .error e) : Fails c (.node p) e
  | compiled {q} (other : q.target ≠ c.target) :
      Fails c (.compiled q) (.targetMismatch c.target q.target)

/-- The same child, or the query of a tree in place of the tree. -/
inductive Clause.ReplacedBy (c : Compiler) : Clause → Clause → Prop
  | same {k} : ReplacedBy c k k
  | compiled {p q} (compile : c.compile p = .ok q) : ReplacedBy c (.node p) (.compiled q)

namespace Compiler

variable {c : Compiler}

/-- A compiler assembles its queries in a dialect that knows the queries of its target. -/
theorem exists_owns (c : Compiler) :
    ∃ (φ : Type) (d : Dialect φ) (query : Option (Fragment φ) → Query), c.Speaks d query ∧
      d.target = c.target ∧ ∀ q, d.ofQuery? q = none ↔ q.target ≠ c.target := by
  obtain ⟨- | -, placeholder⟩ := c
  · refine ⟨_, _, _, speaks_relational placeholder, rfl, fun q => ?_⟩
    cases q <;> simp [Dialect.relational, Query.target]
  · refine ⟨_, _, _, speaks_document placeholder, rfl, fun q => ?_⟩
    cases q <;> simp [Dialect.document, Query.target]

section Steps

variable {φ : Type} {d : Dialect φ} {query : Option (Fragment φ) → Query}
  {children children' : List Clause} {e : CompileError}

theorem compile_eq_error_iff (h : c.Speaks d query) {p : Predicate} :
    c.compile p = .error e ↔ d.compile p = .error e := by
  rw [compile, h.assemble]
  cases d.compile p <;> simp [Except.map]

theorem compile_eq_ok_iff (h : c.Speaks d query) {p : Predicate} {q : Query} :
    c.compile p = .ok q ↔ ∃ x, d.compile p = .ok x ∧ query x = q := by
  rw [compile, h.assemble]
  cases d.compile p <;> simp [Except.map]

/-- A child is not resolved exactly if it fails. -/
theorem resolve_eq_error_iff (h : c.Speaks d query) (htarget : d.target = c.target)
    (howns : ∀ q, d.ofQuery? q = none ↔ q.target ≠ c.target) (k : Clause) (e : CompileError) :
    d.resolve k = .error e ↔ k.Fails c e := by
  cases k with
  | node p =>
    rw [Dialect.resolve, ← compile_eq_error_iff h]
    constructor
    · exact .node
    · intro hp
      cases hp with
      | node hp => exact hp
  | compiled q =>
    rw [Dialect.resolve]
    constructor
    · intro hq
      cases hfragment : d.ofQuery? q with
      | none =>
        rw [hfragment, htarget] at hq
        cases hq
        exact .compiled ((howns q).1 hfragment)
      | some x =>
        rw [hfragment] at hq
        cases hq
    · intro hq
      cases hq with
      | compiled other => rw [(howns q).2 other, htarget]

/-- **A step over children fails** as the first child that fails. -/
theorem map_mapM_eq_error_iff (h : c.Speaks d query) (htarget : d.target = c.target)
    (howns : ∀ q, d.ofQuery? q = none ↔ q.target ≠ c.target)
    {f : List (Option (Fragment φ)) → Option (Fragment φ)} :
    ((children.mapM d.resolve).map f).map query = .error e ↔
      FirstOf (Clause.Fails c) children e := by
  rw [← firstOf_congr fun k _ e => resolve_eq_error_iff h htarget howns k e,
    ← mapM_eq_error_iff_firstOf]
  cases children.mapM d.resolve <;> simp [Except.map]

/-- A child that is replaced by its query is resolved to the same fragment. -/
theorem resolve_eq_of_replacedBy (h : c.Speaks d query) {k k' : Clause} (hk : k.ReplacedBy c k') :
    d.resolve k = d.resolve k' := by
  cases hk with
  | same => rfl
  | compiled hp =>
    obtain ⟨x, hx, rfl⟩ := (compile_eq_ok_iff h).1 hp
    rw [Dialect.resolve, Dialect.resolve, hx, h.ofQuery?]

theorem mapM_resolve_eq_of_replacedBy (h : c.Speaks d query)
    (hchildren : List.Forall₂ (Clause.ReplacedBy c) children children') :
    children.mapM d.resolve = children'.mapM d.resolve := by
  induction hchildren with
  | nil => rfl
  | cons hk _ ih => rw [List.mapM_cons, List.mapM_cons, resolve_eq_of_replacedBy h hk, ih]

end Steps

end Compiler

/-! ### Trees from parts -/

namespace Assembly

mutual

/-- The tree that an assembly builds, if it compiles, joins and groups but puts nothing side by
side. -/
def tree? : Assembly → Option Predicate
  | .node p => some p
  | .empty => none
  | .compile p => some p
  | .join .and parts => (trees? parts).map .and
  | .join .or parts => (trees? parts).map .or
  | .add _ => none
  | .group part => (tree? part).map .group

/-- The trees that several assemblies build. -/
def trees? : List Assembly → Option (List Predicate)
  | [] => some []
  | a :: rest =>
    match tree? a, trees? rest with
    | some p, some ps => some (p :: ps)
    | _, _ => none

end

theorem trees?_eq_mapM : (parts : List Assembly) → trees? parts = parts.mapM tree?
  | [] => rfl
  | a :: rest => by
      rw [trees?, trees?_eq_mapM rest, List.mapM_cons]
      cases tree? a with
      | none => rfl
      | some p => cases rest.mapM tree? <;> rfl

variable {φ : Type} {c : Compiler} {d : Dialect φ} {query : Option (Fragment φ) → Query}
  {a : Assembly} {p : Predicate} {x : Option (Fragment φ)}

/-- **A tree that is built from parts** yields what the tree compiles to. -/
theorem yields_of_tree? (h : c.Speaks d query) (ha : a.tree? = some p) (hx : d.compile p = .ok x) :
    a.Yields c d x := by
  have rows {parts : List Assembly} {children : List Predicate} {xs : List (Option (Fragment φ))}
      (ih : ∀ a ∈ parts, ∀ {p x}, a.tree? = some p → d.compile p = .ok x → a.Yields c d x)
      (hparts : trees? parts = some children)
      (hxs : List.Forall₂ (fun p x => d.compile p = .ok x) children xs) :
      List.Forall₂ (Yields c d) parts xs := by
    rw [trees?_eq_mapM, mapM_eq_some_iff] at hparts
    refine forall₂_imp_of_mem (forall₂_comp_iff.2 ⟨children, hparts, hxs⟩) ?_
    rintro a ha x ⟨p, hap, hpx⟩
    exact ih a ha hap hpx
  induction a using inductionOn generalizing p x with
  | node p =>
    cases ha
    exact yields_node.2 hx
  | empty => cases ha
  | compile p =>
    cases ha
    exact (yields_compile h).2 hx
  | join j parts ih =>
    cases j with
    | and =>
      obtain ⟨children, hparts, rfl⟩ := Option.map_eq_some_iff.1 ha
      obtain ⟨xs, hxs, hjoin⟩ := d.compile_and_eq_ok_iff.1 hx
      exact (yields_join h).2 ⟨xs, rows ih hparts hxs, hjoin⟩
    | or =>
      obtain ⟨children, hparts, rfl⟩ := Option.map_eq_some_iff.1 ha
      obtain ⟨xs, hxs, hjoin⟩ := d.compile_or_eq_ok_iff.1 hx
      exact (yields_join h).2 ⟨xs, rows ih hparts hxs, hjoin⟩
  | add parts _ => cases ha
  | group part ih =>
    obtain ⟨inner, hpart, rfl⟩ := Option.map_eq_some_iff.1 ha
    obtain ⟨y, hy, hgroup⟩ := d.compile_group_eq_ok_iff.1 hx
    exact (yields_group h).2 ⟨y, ih hpart hy, hgroup⟩

/-- The outcome of an assembly is the query of what it yields, unless it is a predicate that is left
to the next step. -/
theorem Yields.clause_eq (h : c.Speaks d query) (hx : a.Yields c d x) :
    a.clause c = .ok (.compiled (query x)) ∨ ∃ p, a = .node p := by
  have step {α : Type} {made : Except CompileError α}
      {run : α → {ψ : Type} → Dialect ψ → Except CompileError (Option (Fragment ψ))}
      (ha : a.clause c = made >>= fun m => (c.assemble (run m)).map .compiled) :
      a.clause c = .ok (.compiled (query x)) ∨ ∃ p, a = .node p := by
    obtain ⟨m, hm, hrun⟩ := (yields_step h ha).1 hx
    exact .inl ((clause_step h ha).2 ⟨m, x, hm, hrun, rfl⟩)
  cases a with
  | node p => exact .inr ⟨p, rfl⟩
  | empty =>
    rw [(yields_empty h).1 hx, h.empty]
    exact .inl rfl
  | compile p => exact step (clause_compile p)
  | join j parts => exact step (clause_join j parts)
  | add parts => exact step (Assembly.clause_add parts)
  | group part => exact step (clause_group part)

end Assembly

/-! ### All failures -/

namespace Compiler

/-- **Failures of compilation and assembly.** A condition text fails exactly if some condition of
the tree is a list comparison with something that is no list or has no element, and as the first
such condition does, whatever stands around it. A filter fails exactly if there is a group in the
tree, and always in the same way. A conjunction, a disjunction or a row of children fails exactly if
some child does, and as the first such child: a tree as it compiles, a query for being of the other
target. Children that compile may be replaced by their queries, with the same outcome or failure, so
that a tree which compiles and is built from compiled parts gives the query that it compiles to. -/
theorem failures :
    (∀ {placeholder : String} {p : Predicate},
      (∀ e, compile ⟨.relational, placeholder⟩ p = .error e ↔
        FirstOf Condition.Refused p.leaves e) ∧
      ((∃ e, compile ⟨.relational, placeholder⟩ p = .error e) ↔
        ∃ c ∈ p.leaves, c.operator.takesSequence ∧
          ((∀ values, c.value ≠ .arr values) ∨ c.value = .arr [])) ∧
      ∀ e, compile ⟨.document, placeholder⟩ p = .error e ↔
        p.hasGroup = true ∧ e = .unsupported .document "group") ∧
    (∀ {c : Compiler} {children : List Clause}, ∀ step ∈ [c.and, c.or, c.add],
      (∀ e, step children = .error e ↔ FirstOf (Clause.Fails c) children e) ∧
      ((∃ e, step children = .error e) ↔ ∃ k ∈ children, ∃ e, k.Fails c e)) ∧
    ∀ {c : Compiler},
      (∀ {children children' : List Clause},
        List.Forall₂ (Clause.ReplacedBy c) children children' →
          ∀ step ∈ [c.and, c.or, c.add], step children = step children') ∧
      (∀ {k k' : Clause}, k.ReplacedBy c k' → c.group k = c.group k') ∧
      ∀ {a : Assembly} {p : Predicate} {q : Query}, a.tree? = some p → c.compile p = .ok q →
        a.clause c = .ok (.compiled q) ∨ a = .node p := by
  refine ⟨fun {placeholder p} => ?_, fun {c children} step hstep => ?_, fun {c} => ?_⟩
  · have hrefused (e : CompileError) : compile ⟨.relational, placeholder⟩ p = .error e ↔
        FirstOf Condition.Refused p.leaves e := by
      rw [compile_eq_error_iff (speaks_relational placeholder),
        Dialect.relational_compile_eq_error_iff]
    refine ⟨hrefused, ?_, fun e => ?_⟩
    · simp only [hrefused, exists_firstOf_iff, Condition.exists_refused_iff]
    · rw [compile_eq_error_iff (speaks_document placeholder),
        Dialect.document_compile_eq_error_iff]
  · obtain ⟨φ, d, query, h, htarget, howns⟩ := c.exists_owns
    have hfails (e : CompileError) : step children = .error e ↔
        FirstOf (Clause.Fails c) children e := by
      simp only [List.mem_cons, List.not_mem_nil, or_false] at hstep
      obtain rfl | rfl | rfl := hstep
      all_goals
        rw [← map_mapM_eq_error_iff h htarget howns]
        exact iff_of_eq (congrArg (· = _) (h.assemble _))
    exact ⟨hfails, by simp only [hfails, exists_firstOf_iff]⟩
  · obtain ⟨φ, d, query, h, -, -⟩ := c.exists_owns
    refine ⟨fun {children children'} hchildren step hstep => ?_, fun {k k'} hk => ?_,
      fun {a p q} ha hq => ?_⟩
    · have hmapM := mapM_resolve_eq_of_replacedBy h hchildren
      simp only [List.mem_cons, List.not_mem_nil, or_false] at hstep
      obtain rfl | rfl | rfl := hstep
      · simp only [Compiler.and, h.assemble, Dialect.joined, hmapM]
      · simp only [Compiler.or, h.assemble, Dialect.joined, hmapM]
      · simp only [Compiler.add, h.assemble, Dialect.added, hmapM]
    · simp only [Compiler.group, h.assemble, Dialect.grouped, resolve_eq_of_replacedBy h hk]
    · obtain ⟨x, hx, rfl⟩ := (compile_eq_ok_iff h).1 hq
      rcases (Assembly.yields_of_tree? h ha hx).clause_eq h with hclause | ⟨p', rfl⟩
      · exact .inl hclause
      · cases ha
        exact .inr rfl

/-- An empty list under a group, a query of the other target behind a condition, and a group that is
built from a query and a predicate. -/
theorem failures_grouped : ∃ q r,
    compile ⟨.relational, "?"⟩ (.and [.isNull "a", .group (.or [.isIn "b" (.arr []),
      .notIn "c" .null])]) = .error (.emptySequence "b" "IN") ∧
    compile ⟨.relational, "?"⟩ (.isNull "a") = .ok r ∧
    or ⟨.relational, "?"⟩ [.node (.isNull "a"), .compiled (.empty .document)] =
      or ⟨.relational, "?"⟩ [.compiled r, .compiled (.empty .document)] ∧
    or ⟨.relational, "?"⟩ [.compiled r, .compiled (.empty .document)] =
      .error (.targetMismatch .relational .document) ∧
    compile ⟨.relational, "?"⟩ (.and [.group (.or [.isIn "b" (.arr [.null]), .isNull "a"]),
      .equal "c" .null]) = .ok q ∧
    (Assembly.join .and [.group (.join .or [.compile (.isIn "b" (.arr [.null])),
      .node (.isNull "a")]), .compile (.equal "c" .null)]).clause ⟨.relational, "?"⟩ =
        .ok (.compiled q) := by
  obtain ⟨r, hr⟩ : ∃ r, compile ⟨.relational, "?"⟩ (.isNull "a") = .ok r := ⟨_, rfl⟩
  obtain ⟨q, hq⟩ : ∃ q, compile ⟨.relational, "?"⟩ (.and [.group (.or
    [.isIn "b" (.arr [.null]), .isNull "a"]), .equal "c" .null]) = .ok q := ⟨_, rfl⟩
  obtain ⟨hcompile, hsteps, hparts⟩ := failures
  have hreplaced : List.Forall₂ (Clause.ReplacedBy ⟨.relational, "?"⟩)
      [.node (.isNull "a"), .compiled (.empty .document)]
      [.compiled r, .compiled (.empty .document)] := .cons (.compiled hr) (.cons .same .nil)
  refine ⟨q, r, (hcompile.1 _).2 ?_, hr, hparts.1 hreplaced _ (.tail _ (.head _)),
    ((hsteps _ (.tail _ (.head _))).1 _).2 ?_, hq, (hparts.2.2 rfl hq).resolve_right nofun⟩
  · refine ⟨[⟨"a", .isNull, .null⟩], ⟨"b", .isIn, .arr []⟩, [⟨"c", .notIn, .null⟩], rfl, ?_,
      .emptySequence rfl rfl⟩
    intro b hb e hrefused
    obtain rfl := List.mem_singleton.1 hb
    exact Bool.noConfusion (Condition.exists_refused_iff.1 ⟨e, hrefused⟩).1
  · refine ⟨[.compiled r], .compiled (.empty .document), [], rfl, ?_, .compiled nofun⟩
    obtain ⟨x, -, rfl⟩ := (compile_eq_ok_iff (speaks_relational "?")).1 hr
    intro k hk e hfails
    obtain rfl := List.mem_singleton.1 hk
    cases hfails with
    | compiled other => exact other rfl

end Compiler

end QueryCache
