import QueryCache.Query.Pattern
import QueryCache.Query.Target
import QueryCache.Signature

/-!
# Filter objects

A filter tests a field, or holds if all or any of its operands hold. Its object form has one key:
the tested field, `$and` or `$or`.

Filters are joined side by side like the parts of a condition text in which conjunction binds
tighter than disjunction: each filter is split into its disjuncts, a conjunctively joined filter
extends the last disjunct before it by its own first one, and the disjuncts are put together again.

## Main definitions

* `Filter` : filters, `Filter.toJson` their object form.
* `Filter.ofCondition` : the test of a condition.
* `Filter.join`, `Filter.concat` : putting filters together.
-/

namespace QueryCache

/-- A filter over documents. -/
inductive Filter where
  /-- The field passes the check, an object that names the comparison. -/
  | test (field : String) (check : Json)
  /-- All operands hold. -/
  | all (operands : List Filter)
  /-- Some operand holds. -/
  | any (operands : List Filter)

namespace Filter

mutual

/-- The object form of a filter. -/
def toJson : Filter → Json
  | .test field check => .obj [(field, check)]
  | .all operands => .obj [(Joiner.and.documentKey, .arr (toJsonAll operands))]
  | .any operands => .obj [(Joiner.or.documentKey, .arr (toJsonAll operands))]

/-- The object forms of several filters. -/
def toJsonAll : List Filter → List Json
  | [] => []
  | f :: rest => toJson f :: toJsonAll rest

end

/-- An object with a single member. -/
def single (key : String) (value : Json) : Json := .obj [(key, value)]

/-- The regular expression for the pattern that a value is the token of. -/
def regex (value : Json) : Json :=
  single "$regex" (.str (Pattern.toRegex value.token))

/-- The check that a condition makes. A comparison with a list makes none if the value is no
list. -/
def check? (c : Condition) : Option Json :=
  match c.operator with
  | .equal => some (single "$eq" c.value)
  | .notEqual => some (single "$ne" c.value)
  | .greaterThan => some (single "$gt" c.value)
  | .greaterThanEqual => some (single "$gte" c.value)
  | .lesserThan => some (single "$lt" c.value)
  | .lesserThanEqual => some (single "$lte" c.value)
  | .like => some (regex c.value)
  | .notLike => some (single "$not" (regex c.value))
  | .isIn => match c.value with
    | .arr _ => some (single "$in" c.value)
    | _ => none
  | .notIn => match c.value with
    | .arr _ => some (single "$nin" c.value)
    | _ => none
  | .isNull => some (single "$exists" (.bool false))
  | .isNotNull => some (single "$exists" (.bool true))

/-- The test of a condition, if it makes a check. -/
def ofCondition (c : Condition) : Option Filter := (check? c).map (.test c.field)

/-- Operands under a joiner. -/
def wrap : Joiner → List Filter → Filter
  | .and, operands => .all operands
  | .or, operands => .any operands

/-- Filters under a joiner; a single filter stays as it is. -/
def join (joiner : Joiner) (first : Filter) : List Filter → Filter
  | [] => first
  | rest => wrap joiner (first :: rest)

/-- The conjuncts of a filter. -/
def conjuncts : Filter → List Filter
  | .all operands => operands
  | f => [f]

/-- The disjuncts of a filter, each as the list of its conjuncts. -/
def disjuncts : Filter → List (List Filter)
  | .any operands => operands.map conjuncts
  | f => [conjuncts f]

/-- Adds conjuncts to the last disjunct. -/
def extendLast (terms : List (List Filter)) (conjuncts : List Filter) : List (List Filter) :=
  match terms.getLast? with
  | none => []
  | some last => terms.dropLast ++ [last ++ conjuncts]

/-- The disjuncts of a filter behind those of the filters before it. By conjunction, which is also
meant where no joiner is given, the first new disjunct belongs to the last old one. -/
def follow (terms : List (List Filter)) (part : Option Joiner × Filter) : List (List Filter) :=
  match part.1.getD .and, disjuncts part.2 with
  | .and, head :: tail => extendLast terms head ++ tail
  | _, incoming => terms ++ incoming

/-- The filter of a list of conjuncts. -/
def ofConjuncts : List Filter → Filter
  | [f] => f
  | operands => .all operands

/-- The filter of a list of disjuncts. -/
def ofDisjuncts (terms : List (List Filter)) : Filter :=
  match terms.map ofConjuncts with
  | [f] => f
  | products => .any products

/-- Filters side by side. The joiner of each part stands in front of it. -/
def concat (first : Filter) (rest : List (Option Joiner × Filter)) : Filter :=
  ofDisjuncts (rest.foldl follow (disjuncts first))

end Filter

end QueryCache
