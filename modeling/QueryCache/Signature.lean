import QueryCache.Json.Printer
import QueryCache.Predicate.Basic

/-!
# Cache signatures

A signature names a query in the cache. Each condition contributes the token of its value and its
operator's name with that token; the contributions are joined by underscores from left to right.

## Main definitions

* `Json.token` : the text that stands for a value in keys.
* `Signature.ofCondition`, `Signature.append`, `Signature.concat?` : signatures and joining them.
-/

namespace QueryCache

/-- The text between the parts of keys. -/
def keySeparator : String := "_"

/-- The text that stands for a value in keys: a string stands for itself, any other value for its
JSON text. -/
def Json.token : Json → String
  | .str text => text
  | value => value.render

/-- The name of a query in the cache. -/
structure Signature where
  /-- The operators and values of all conditions. -/
  cacheKey : String
  /-- The values of all conditions. -/
  cacheValue : String
  /-- All conditions are equalities. -/
  defaultCacheable : Bool
deriving DecidableEq

namespace Signature

/-- The signature of a single condition. -/
def ofCondition (c : Condition) : Signature where
  cacheKey := c.operator.name ++ keySeparator ++ c.value.token
  cacheValue := c.value.token
  defaultCacheable := c.operator.isDefaultCacheable

/-- One signature after the other. -/
def append (s t : Signature) : Signature where
  cacheKey := s.cacheKey ++ keySeparator ++ t.cacheKey
  cacheValue := s.cacheValue ++ keySeparator ++ t.cacheValue
  defaultCacheable := s.defaultCacheable && t.defaultCacheable

instance : Append Signature := ⟨append⟩

/-- A signature followed by several more. -/
def concat (s : Signature) (rest : List Signature) : Signature := rest.foldl append s

/-- All signatures of a list in a row; nothing for an empty list. -/
def concat? : List Signature → Option Signature
  | [] => none
  | s :: rest => some (s.concat rest)

/-- The serialized form of a signature. -/
def toJson (s : Signature) : Json :=
  .obj [("cache_key", .str s.cacheKey), ("cache_value", .str s.cacheValue),
    ("default_cacheable", .bool s.defaultCacheable)]

/-- The signature of three serialized parts. -/
def ofParts? : Json → Json → Json → Option Signature
  | .str key, .str value, .bool cacheable => some ⟨key, value, cacheable⟩
  | _, _, _ => none

/-- The signature of a serialized form: an object with the three members, others being ignored, or
the array of the three. -/
def ofJson? : Json → Option Signature
  | .obj members => do
    let key ← members.lookup "cache_key"
    let value ← members.lookup "cache_value"
    let cacheable ← members.lookup "default_cacheable"
    ofParts? key value cacheable
  | .arr [key, value, cacheable] => ofParts? key value cacheable
  | _ => none

end Signature

end QueryCache
