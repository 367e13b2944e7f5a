import QueryCache.Predicate.Basic

/-!
# The serialized form of predicates

A predicate is an object with one key that names the kind of node. A condition is an object with
the members `field`, `operator` and `value`, and an operator is its name.

The reader accepts more than the writer produces: further members of a condition are ignored, a
condition may be the array of its three parts, and an operator may be an object with the name as
its key and null as its value.

## Main definitions

* `Predicate.toJson`, `Predicate.ofJson?` : writer and reader.
* `Predicate.same` : equality of trees, up to the sign of zero.
-/

namespace QueryCache

namespace Operator

/-- The serialized form of an operator. -/
def toJson (operator : Operator) : Json := .str operator.name

/-- The operator of a serialized form. -/
def ofJson? : Json → Option Operator
  | .str name => ofName? name
  | .obj [(name, .null)] => ofName? name
  | _ => none

end Operator

namespace Condition

/-- The serialized form of a condition. -/
def toJson (c : Condition) : Json :=
  .obj [("field", .str c.field), ("operator", c.operator.toJson), ("value", c.value)]

/-- The condition of three serialized parts. -/
def ofParts? : Json → Json → Json → Option Condition
  | .str field, operator, value =>
    (Operator.ofJson? operator).map fun operator => ⟨field, operator, value⟩
  | _, _, _ => none

/-- The condition of a serialized form. -/
def ofJson? : Json → Option Condition
  | .obj members => do
    let field ← members.lookup "field"
    let operator ← members.lookup "operator"
    let value ← members.lookup "value"
    ofParts? field operator value
  | .arr [field, operator, value] => ofParts? field operator value
  | _ => none

end Condition

namespace Predicate

mutual

/-- The serialized form of a tree. -/
def toJson : Predicate → Json
  | .leaf condition => .obj [("leaf", condition.toJson)]
  | .and children => .obj [("and", .arr (toJsonAll children))]
  | .or children => .obj [("or", .arr (toJsonAll children))]
  | .group inner => .obj [("group", toJson inner)]

/-- The serialized forms of several trees. -/
def toJsonAll : List Predicate → List Json
  | [] => []
  | child :: rest => toJson child :: toJsonAll rest

end

mutual

/-- The tree of a serialized form. -/
def ofJson? : Json → Option Predicate
  | .obj [("leaf", condition)] => (Condition.ofJson? condition).map .leaf
  | .obj [("and", .arr children)] => (ofJsonAll? children).map .and
  | .obj [("or", .arr children)] => (ofJsonAll? children).map .or
  | .obj [("group", inner)] => (ofJson? inner).map .group
  | _ => none

/-- The trees of several serialized forms, if all of them are. -/
def ofJsonAll? : List Json → Option (List Predicate)
  | [] => some []
  | form :: rest =>
    match ofJson? form, ofJsonAll? rest with
    | some child, some children => some (child :: children)
    | _, _ => none

end

/-- Equality of trees: nodes alike, and values that are the same. -/
def same (p q : Predicate) : Bool := p.toJson.same q.toJson

end Predicate

end QueryCache
