import QueryCache.RecordId
import QueryCache.Signature

/-!
# Keys

The keys of one entity of one database begin with both names. Pointers are kept under the values of
an index, query results under the key of their query's signature, and a payload under its record's
identifier alone.
-/

namespace QueryCache

/-- An entity of a database. -/
structure KeySpace where
  database : String
  entity : String
deriving DecidableEq

namespace KeySpace

/-- What all keys of the entity begin with. -/
def scope (s : KeySpace) : String := s.database ++ keySeparator ++ s.entity ++ keySeparator

/-- The key of the pointer for the values of an index. -/
def indexKey (s : KeySpace) (values : String) : String := s.scope ++ values

/-- The key of the result of the query with this signature key. -/
def queryKey (s : KeySpace) (cacheKey : String) : String := s.scope ++ cacheKey

end KeySpace

/-- The key of a record's payload. -/
def RecordId.payloadKey (id : RecordId) : String := id.text

end QueryCache
