import QueryCache.Json.Basic

/-!
# Targets and joiners

The two forms a predicate can be compiled to, and the two ways of joining conditions, with their
spelling in each form.
-/

namespace QueryCache

/-- What a predicate is compiled to. -/
inductive Target where
  /-- A condition text with positional parameters. -/
  | relational
  /-- A filter object. -/
  | document
deriving DecidableEq

namespace Target

/-- The name of a target, which is also its serialized form. -/
def name : Target → String
  | .relational => "relational"
  | .document => "document"

/-- The target of a serialized form. -/
def ofJson? : Json → Option Target
  | .str "relational" => some .relational
  | .str "document" => some .document
  | _ => none

end Target

/-- How conditions are joined. -/
inductive Joiner where
  | and
  | or
deriving DecidableEq

namespace Joiner

/-- The name of a joiner. -/
def name : Joiner → String
  | .and => "And"
  | .or => "Or"

/-- The joiner between two conditions of a text. -/
def sql : Joiner → String
  | .and => " AND "
  | .or => " OR "

/-- The key of a joined filter. -/
def documentKey : Joiner → String
  | .and => "$and"
  | .or => "$or"

end Joiner

end QueryCache
