import QueryCache.Error
import QueryCache.Predicate.Basic

/-!
# Condition texts

A condition text is a row of pieces: tests, joiners and parentheses. A test keeps its text together
with the values it binds, so that text and positional parameters stay in step however texts are put
together.

## Main definitions

* `Sql` : a condition text with its parameters, `Sql.text`, `Sql.parameters`.
* `Sql.ofCondition` : the test of a condition.
* `Sql.concat`, `Sql.join`, `Sql.group` : putting texts together.
-/

namespace QueryCache

namespace Sql

/-- A piece of a condition text. -/
inductive Piece where
  /-- A test, with the values for its placeholders. -/
  | test (text : String) (values : List Json)
  | joiner (j : Joiner)
  | opening
  | closing

namespace Piece

/-- The text of a piece. -/
def text : Piece → String
  | .test t _ => t
  | .joiner j => j.sql
  | .opening => "("
  | .closing => ")"

/-- The values that a piece binds. -/
def values : Piece → List Json
  | .test _ vs => vs
  | _ => []

end Piece

end Sql

/-- A condition text with its parameters. -/
structure Sql where
  pieces : List Sql.Piece

namespace Sql

/-- The text. -/
def text (s : Sql) : String := String.join (s.pieces.map Piece.text)

/-- The values for the placeholders of the text, from left to right. -/
def parameters (s : Sql) : List Json := s.pieces.flatMap Piece.values

/-- The spelling of an operator. -/
def symbol : Operator → String
  | .equal => "="
  | .notEqual => "!="
  | .greaterThan => ">"
  | .greaterThanEqual => ">="
  | .lesserThan => "<"
  | .lesserThanEqual => "<="
  | .like => "LIKE"
  | .notLike => "NOT LIKE"
  | .isIn => "IN"
  | .notIn => "NOT IN"
  | .isNull => "IS NULL"
  | .isNotNull => "IS NOT NULL"

/-- A text that consists of one test. -/
def ofTest (text : String) (values : List Json) : Sql := ⟨[.test text values]⟩

/-- The test of a condition. A null check binds nothing, a comparison with a list binds each of
its elements, and any other comparison binds the value. The list must be one and must not be
empty. -/
def ofCondition (placeholder : String) (c : Condition) : Except CompileError Sql :=
  let front := c.field ++ " " ++ symbol c.operator
  if c.operator.isNullCheck then .ok (ofTest front [])
  else if c.operator.takesSequence then
    match c.value with
    | .arr [] => .error (.emptySequence c.field c.operator.name)
    | .arr values =>
      let placeholders := ",".intercalate (values.map fun _ => placeholder)
      .ok (ofTest (front ++ " (" ++ placeholders ++ ")") values)
    | _ => .error (.notASequence c.field c.operator.name)
  else .ok (ofTest (front ++ " " ++ placeholder) [c.value])

/-- A text behind another one, after its joiner if it has one. -/
def follow (part : Option Joiner × Sql) : List Piece :=
  part.1.toList.map Piece.joiner ++ part.2.pieces

/-- Texts in a row. The joiner of each part stands in front of it. -/
def concat (first : Sql) (rest : List (Option Joiner × Sql)) : Sql :=
  ⟨first.pieces ++ rest.flatMap follow⟩

/-- Texts in a row with one joiner between them. -/
def join (joiner : Joiner) (first : Sql) (rest : List Sql) : Sql :=
  concat first (rest.map fun s => (some joiner, s))

/-- A text in parentheses. -/
def group (s : Sql) : Sql := ⟨.opening :: s.pieces ++ [.closing]⟩

end Sql

end QueryCache
