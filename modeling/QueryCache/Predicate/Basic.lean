import QueryCache.Json.Basic
import QueryCache.Predicate.Operator

/-!
# Conditions and predicate trees

A condition compares one field with a value. A predicate tree joins conditions by conjunction and
disjunction; a group marks a subtree that is kept together in parentheses.

## Main definitions

* `Condition`, `Predicate` : the trees.
* `Predicate.leaves` : the conditions of a tree from left to right.
-/

namespace QueryCache

/-- A comparison of a field with a value. -/
structure Condition where
  field : String
  operator : Operator
  value : Json

/-- A tree of conditions. -/
inductive Predicate where
  | leaf (condition : Condition)
  | and (children : List Predicate)
  | or (children : List Predicate)
  | group (inner : Predicate)

namespace Predicate

instance : Inhabited Predicate := ⟨.and []⟩

/-- The tree of a single comparison. -/
def compare (field : String) (operator : Operator) (value : Json) : Predicate :=
  .leaf ⟨field, operator, value⟩

/-- The field equals the value. -/
def equal (field : String) (value : Json) : Predicate := compare field .equal value

/-- The field differs from the value. -/
def notEqual (field : String) (value : Json) : Predicate := compare field .notEqual value

/-- The field is greater than the value. -/
def greaterThan (field : String) (value : Json) : Predicate := compare field .greaterThan value

/-- The field is greater than or equal to the value. -/
def greaterThanEqual (field : String) (value : Json) : Predicate :=
  compare field .greaterThanEqual value

/-- The field is less than the value. -/
def lesserThan (field : String) (value : Json) : Predicate := compare field .lesserThan value

/-- The field is less than or equal to the value. -/
def lesserThanEqual (field : String) (value : Json) : Predicate :=
  compare field .lesserThanEqual value

/-- The field matches the pattern. -/
def like (field : String) (pattern : Json) : Predicate := compare field .like pattern

/-- The field does not match the pattern. -/
def notLike (field : String) (pattern : Json) : Predicate := compare field .notLike pattern

/-- The field equals one of the values. -/
def isIn (field : String) (values : Json) : Predicate := compare field .isIn values

/-- The field equals none of the values. -/
def notIn (field : String) (values : Json) : Predicate := compare field .notIn values

/-- The field is absent. The condition carries a null value. -/
def isNull (field : String) : Predicate := compare field .isNull .null

/-- The field is present. The condition carries a null value. -/
def isNotNull (field : String) : Predicate := compare field .isNotNull .null

mutual

/-- The conditions of a tree from left to right. -/
def leaves : Predicate → List Condition
  | .leaf condition => [condition]
  | .and children => leavesOfAll children
  | .or children => leavesOfAll children
  | .group inner => leaves inner

/-- The conditions of several trees, one tree after the other. -/
def leavesOfAll : List Predicate → List Condition
  | [] => []
  | child :: rest => leaves child ++ leavesOfAll rest

end

/-- The conditions of several trees are those of the trees in a row. -/
theorem leavesOfAll_eq_flatMap (children : List Predicate) :
    leavesOfAll children = children.flatMap leaves := by
  induction children with
  | nil => rfl
  | cons child rest ih => simp [leavesOfAll, ih]

end Predicate

end QueryCache
