import QueryCache.Json.Basic

/-!
# Records

A record is what the cache holds for a database row or document: values under field names, in the
order of the names.
-/

namespace QueryCache

/-- Values under field names. -/
abbrev Record := List (String × Json)

namespace Record

/-- The record as a JSON object. -/
def toJson (r : Record) : Json := .obj r

/-- The record of a JSON object. -/
def ofJson? : Json → Option Record
  | .obj members => some members
  | _ => none

end Record

end QueryCache
