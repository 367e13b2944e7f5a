/-!
# Comparison operators

The twelve operators of a condition with their names.

## Main definitions

* `Operator.name`, `Operator.ofName?` : names and back.
* `Operator.isDefaultCacheable`, `Operator.takesSequence`, `Operator.isNullCheck` : the classes.
-/

namespace QueryCache

/-- The comparison that a condition makes. -/
inductive Operator where
  | equal
  | notEqual
  | greaterThan
  | greaterThanEqual
  | lesserThan
  | lesserThanEqual
  | like
  | notLike
  | isIn
  | notIn
  | isNull
  | isNotNull
deriving DecidableEq

namespace Operator

/-- All operators in their order of declaration. -/
def all : List Operator :=
  [.equal, .notEqual, .greaterThan, .greaterThanEqual, .lesserThan, .lesserThanEqual, .like,
    .notLike, .isIn, .notIn, .isNull, .isNotNull]

theorem mem_all (operator : Operator) : operator ∈ all := by cases operator <;> simp [all]

/-- The name of an operator, which is also its serialized form and its part in signatures. -/
def name : Operator → String
  | .equal => "EQUAL"
  | .notEqual => "NOT_EQUAL"
  | .greaterThan => "GREATER_THAN"
  | .greaterThanEqual => "GREATER_THAN_EQUAL"
  | .lesserThan => "LESSER_THAN"
  | .lesserThanEqual => "LESSER_THAN_EQUAL"
  | .like => "LIKE"
  | .notLike => "NOT_LIKE"
  | .isIn => "IN"
  | .notIn => "NOT_IN"
  | .isNull => "IS_NULL"
  | .isNotNull => "IS_NOT_NULL"

/-- The operator with a name. -/
def ofName? (name : String) : Option Operator := all.find? fun operator => operator.name == name

/-- Every operator is found by its name. -/
@[simp] theorem ofName?_name (operator : Operator) : ofName? operator.name = some operator := by
  cases operator <;> decide

/-- Results of the operator may be cached under the values alone. -/
def isDefaultCacheable : Operator → Bool
  | .equal => true
  | _ => false

/-- The operator compares with every element of a list. -/
def takesSequence : Operator → Bool
  | .isIn | .notIn => true
  | _ => false

/-- The operator asks for presence and has no value of its own. -/
def isNullCheck : Operator → Bool
  | .isNull | .isNotNull => true
  | _ => false

end Operator

end QueryCache
