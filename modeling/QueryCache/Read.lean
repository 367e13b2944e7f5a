/-!
# Reads

How a read may be served, and a value together with where it came from.
-/

namespace QueryCache

/-- Where a value came from. -/
inductive ReadSource where
  /-- From the payload that an index pointer names. -/
  | indexPointer
  /-- From the stored result of the query. -/
  | querySignature
  /-- From the primary store. -/
  | primary
deriving DecidableEq

namespace ReadSource

/-- The name of a source. -/
def name : ReadSource → String
  | .indexPointer => "IndexPointer"
  | .querySignature => "QuerySignature"
  | .primary => "Primary"

/-- The value was found in the cache. -/
def isCache : ReadSource → Bool
  | .primary => false
  | _ => true

end ReadSource

/-- How a read may be served. -/
structure ReadOptions where
  /-- The cache is passed over. -/
  forcePrimary : Bool := false
  /-- A value from the primary store is stored as the query's result. -/
  cacheResult : Bool := false
  /-- Index pointers are passed over. -/
  skipIndexLookup : Bool := false
deriving DecidableEq

/-- A value with its source. -/
structure CacheRead (α : Type) where
  value : α
  source : ReadSource

namespace CacheRead

/-- A value from the primary store. -/
def fromPrimary {α : Type} (value : α) : CacheRead α := ⟨value, .primary⟩

/-- The value was found in the cache. -/
def wasCacheHit {α : Type} (r : CacheRead α) : Bool := r.source.isCache

/-- The value after a function, from the same source. -/
def map {α β : Type} (f : α → β) (r : CacheRead α) : CacheRead β := ⟨f r.value, r.source⟩

end CacheRead

end QueryCache
