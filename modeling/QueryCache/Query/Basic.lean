import QueryCache.Query.Filter
import QueryCache.Query.Sql

/-!
# Compiled queries

A compiled query is empty or consists of a condition text or filter, a signature, and the joiner
with which it attaches to queries before it. An empty query has neither signature nor joiner.

## Main definitions

* `Fragment` : what a query consists of that is not empty.
* `Query` : compiled queries for either target, with their accessors.
-/

namespace QueryCache

/-- A text or filter with the joiner that attaches it to what stands before it. -/
structure Fragment (φ : Type) where
  body : φ
  leading : Option Joiner
  signature : Signature

/-- A compiled query; `none` is the empty one. -/
inductive Query where
  | relational (fragment : Option (Fragment Sql))
  | document (fragment : Option (Fragment Filter))

namespace Query

/-- The empty query of a target. -/
def empty : Target → Query
  | .relational => .relational none
  | .document => .document none

/-- The target that a query is compiled for. -/
def target : Query → Target
  | .relational _ => .relational
  | .document _ => .document

/-- Whether the query restricts nothing. -/
def isEmpty : Query → Bool
  | .relational fragment => fragment.isNone
  | .document fragment => fragment.isNone

/-- The joiner with which the query attaches to what stands before it. -/
def leading : Query → Option Joiner
  | .relational fragment => fragment.bind Fragment.leading
  | .document fragment => fragment.bind Fragment.leading

/-- The name of the query in the cache; an empty query has none. -/
def signature? : Query → Option Signature
  | .relational fragment => fragment.map Fragment.signature
  | .document fragment => fragment.map Fragment.signature

/-- The condition text; a query for documents has none. -/
def sql? : Query → Option String
  | .relational none => some ""
  | .relational (some fragment) => some fragment.body.text
  | .document _ => none

/-- The condition text behind its leading joiner. -/
def fragment? : Query → Option String
  | .relational none => some ""
  | .relational (some fragment) =>
    some ((fragment.leading.elim "" Joiner.sql) ++ fragment.body.text)
  | .document _ => none

/-- The values for the placeholders of the condition text. -/
def parameters : Query → List Json
  | .relational (some fragment) => fragment.body.parameters
  | _ => []

/-- The filter object; a relational query has none. -/
def document? : Query → Option Json
  | .relational _ => none
  | .document none => some (.obj [])
  | .document (some fragment) => some fragment.body.toJson

/-- The part of the signature that names operators and values. -/
def cacheKey? (q : Query) : Option String := q.signature?.map Signature.cacheKey

/-- The part of the signature that names the values alone. -/
def cacheValue? (q : Query) : Option String := q.signature?.map Signature.cacheValue

/-- The query consists of equalities only, at least one. -/
def defaultCacheable (q : Query) : Bool := q.signature?.any Signature.defaultCacheable

end Query

end QueryCache
