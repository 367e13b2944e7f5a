import QueryCache.Predicate.Basic

/-!
# Truth of predicate trees

A valuation of the conditions gives every tree a truth value: a conjunction holds if all children
do, a disjunction if some child does, and a group holds if its content does. Before a tree is
valued, conditions that do not count are taken out of it, together with the nodes that are left
without any condition.

## Main definitions

* `Condition.operands` : the values that a condition binds.
* `Predicate.holds` : the truth value of a tree.
* `Predicate.prune?` : the tree of the conditions that count.
* `Predicate.isConjunctive`, `Predicate.orsOutside` : trees whose joiners need no parentheses.
* `Predicate.hasGroup` : trees with a group somewhere.

## Main results

* `Predicate.prune?_eq_none_iff` : nothing is left of a tree exactly when no condition counts.
-/

namespace QueryCache

/-- The values that a condition compares with: none for a null check, each element for a comparison
with a list, and else the value itself. -/
def Condition.operands (c : Condition) : List Json :=
  if c.operator.isNullCheck then []
  else if c.operator.takesSequence then
    match c.value with
    | .arr values => values
    | _ => []
  else [c.value]

namespace Predicate

/-! ### Induction on trees -/

/-- Induction on a tree, with the statement for every child at a node. -/
@[elab_as_elim]
theorem inductionOn {motive : Predicate → Prop} (p : Predicate)
    (leaf : ∀ c, motive (.leaf c))
    (and : ∀ children, (∀ p ∈ children, motive p) → motive (.and children))
    (or : ∀ children, (∀ p ∈ children, motive p) → motive (.or children))
    (group : ∀ p, motive p → motive (.group p)) : motive p :=
  match p with
  | .leaf c => leaf c
  | .and children => and children fun p _ => inductionOn p leaf and or group
  | .or children => or children fun p _ => inductionOn p leaf and or group
  | .group p => group p (inductionOn p leaf and or group)

/-- A condition of several trees is one of some tree. -/
theorem mem_leavesOfAll {c : Condition} {children : List Predicate} :
    c ∈ leavesOfAll children ↔ ∃ p ∈ children, c ∈ p.leaves := by
  rw [leavesOfAll_eq_flatMap, List.mem_flatMap]

/-! ### Truth values -/

section Truth

variable (v : Condition → Bool)

mutual

/-- The truth value of a tree. -/
def holds : Predicate → Bool
  | .leaf c => v c
  | .and children => allHold children
  | .or children => anyHolds children
  | .group inner => holds inner

/-- All trees hold. -/
def allHold : List Predicate → Bool
  | [] => true
  | p :: rest => holds p && allHold rest

/-- Some tree holds. -/
def anyHolds : List Predicate → Bool
  | [] => false
  | p :: rest => holds p || anyHolds rest

end

theorem allHold_eq_all : (ps : List Predicate) → allHold v ps = ps.all (holds v)
  | [] => rfl
  | p :: rest => by rw [allHold, allHold_eq_all rest, List.all_cons]

theorem anyHolds_eq_any : (ps : List Predicate) → anyHolds v ps = ps.any (holds v)
  | [] => rfl
  | p :: rest => by rw [anyHolds, anyHolds_eq_any rest, List.any_cons]

@[simp] theorem holds_leaf (c : Condition) : (leaf c).holds v = v c := rfl

@[simp] theorem holds_and (ps : List Predicate) : (and ps).holds v = ps.all (holds v) :=
  allHold_eq_all v ps

@[simp] theorem holds_or (ps : List Predicate) : (or ps).holds v = ps.any (holds v) :=
  anyHolds_eq_any v ps

@[simp] theorem holds_group (p : Predicate) : (group p).holds v = p.holds v := rfl

end Truth

/-! ### The conditions that count -/

/-- A node over the children that are left; none without a child. -/
def nodeOver (node : List Predicate → Predicate) : List Predicate → Option Predicate
  | [] => none
  | children => some (node children)

section Prune

variable (keep : Condition → Bool)

mutual

/-- The tree without the conditions that do not count and without the nodes that are then over no
condition. -/
def prune? : Predicate → Option Predicate
  | .leaf c => if keep c then some (.leaf c) else none
  | .and children => nodeOver .and (pruneAll children)
  | .or children => nodeOver .or (pruneAll children)
  | .group inner => (prune? inner).map .group

/-- What is left of several trees. -/
def pruneAll : List Predicate → List Predicate
  | [] => []
  | p :: rest =>
    match prune? p with
    | none => pruneAll rest
    | some kept => kept :: pruneAll rest

end

theorem pruneAll_eq_filterMap :
    (ps : List Predicate) → pruneAll keep ps = ps.filterMap (prune? keep)
  | [] => rfl
  | p :: rest => by
      rw [pruneAll, List.filterMap_cons, pruneAll_eq_filterMap rest]
      cases prune? keep p <;> rfl

theorem prune?_leaf (c : Condition) :
    (leaf c).prune? keep = if keep c then some (.leaf c) else none := rfl

theorem prune?_and (ps : List Predicate) :
    (and ps).prune? keep = nodeOver .and (ps.filterMap (prune? keep)) := by
  rw [prune?, pruneAll_eq_filterMap]

theorem prune?_or (ps : List Predicate) :
    (or ps).prune? keep = nodeOver .or (ps.filterMap (prune? keep)) := by
  rw [prune?, pruneAll_eq_filterMap]

theorem prune?_group (p : Predicate) : (group p).prune? keep = (p.prune? keep).map .group := rfl

theorem nodeOver_eq_none_iff {node : List Predicate → Predicate} {ps : List Predicate} :
    nodeOver node ps = none ↔ ps = [] := by
  cases ps <;> simp [nodeOver]

/-- Nothing is left of a tree exactly when none of its conditions counts. -/
theorem prune?_eq_none_iff (p : Predicate) :
    p.prune? keep = none ↔ ∀ c ∈ p.leaves, keep c = false := by
  have node (children : List Predicate)
      (ih : ∀ p ∈ children, (p.prune? keep = none ↔ ∀ c ∈ p.leaves, keep c = false)) :
      children.filterMap (prune? keep) = [] ↔ ∀ c ∈ leavesOfAll children, keep c = false := by
    rw [List.filterMap_eq_nil_iff]
    constructor
    · intro h c hc
      obtain ⟨p, hp, hcp⟩ := mem_leavesOfAll.1 hc
      exact (ih p hp).1 (h p hp) c hcp
    · intro h p hp
      exact (ih p hp).2 fun c hc => h c (mem_leavesOfAll.2 ⟨p, hp, hc⟩)
  induction p using inductionOn with
  | leaf c => cases hc : keep c <;> simp [prune?_leaf, leaves, hc]
  | and children ih => rw [prune?_and, nodeOver_eq_none_iff, node children ih, leaves]
  | or children ih => rw [prune?_or, nodeOver_eq_none_iff, node children ih, leaves]
  | group p ih => rw [prune?_group, Option.map_eq_none_iff, leaves]; exact ih

end Prune

/-! ### Trees whose joiners need no parentheses -/

mutual

/-- No disjunction lies below a conjunction unless a group stands between them. The flag says
whether a conjunction stands above the tree with no group in between. -/
def orsOutside (below : Bool) : Predicate → Bool
  | .leaf _ => true
  | .and children => orsOutsideAll true children
  | .or children => !below && orsOutsideAll false children
  | .group inner => orsOutside false inner

/-- The same of several trees. -/
def orsOutsideAll (below : Bool) : List Predicate → Bool
  | [] => true
  | p :: rest => orsOutside below p && orsOutsideAll below rest

end

theorem orsOutsideAll_iff {below : Bool} {ps : List Predicate} :
    orsOutsideAll below ps = true ↔ ∀ p ∈ ps, p.orsOutside below = true := by
  induction ps with
  | nil => simp [orsOutsideAll]
  | cons p rest ih => simp [orsOutsideAll, ih]

mutual

/-- The tree consists of conditions under conjunctions. -/
def isConjunctive : Predicate → Bool
  | .leaf _ => true
  | .and children => areConjunctive children
  | .or _ => false
  | .group _ => false

/-- All trees consist of conditions under conjunctions. -/
def areConjunctive : List Predicate → Bool
  | [] => true
  | p :: rest => isConjunctive p && areConjunctive rest

end

theorem areConjunctive_iff {ps : List Predicate} :
    areConjunctive ps = true ↔ ∀ p ∈ ps, p.isConjunctive = true := by
  induction ps with
  | nil => simp [areConjunctive]
  | cons p rest ih => simp [areConjunctive, ih]

/-! ### Groups -/

mutual

/-- There is a group somewhere in the tree. -/
def hasGroup : Predicate → Bool
  | .leaf _ => false
  | .and children => someHasGroup children
  | .or children => someHasGroup children
  | .group _ => true

/-- There is a group somewhere in one of the trees. -/
def someHasGroup : List Predicate → Bool
  | [] => false
  | p :: rest => hasGroup p || someHasGroup rest

end

theorem someHasGroup_eq_false_iff {ps : List Predicate} :
    someHasGroup ps = false ↔ ∀ p ∈ ps, p.hasGroup = false := by
  induction ps with
  | nil => simp [someHasGroup]
  | cons p rest ih => simp [someHasGroup, ih]

end Predicate

end QueryCache
