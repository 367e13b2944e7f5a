import QueryCache.Store.Basic
import QueryCache.Digest.Sha256

/-!
# Stores with bounded keys

A store on disk limits the length of its keys. A longer key is replaced by a digest of it, so that
keys of any length can be used. The store itself has no place for an empty key.

## Main definitions

* `BoundedStore.storageKey` : the key under which an entry is kept.
* `BoundedStore` : the store.
-/

namespace QueryCache

/-- A store that limits the length of its keys. -/
structure BoundedStore where
  table : Table := {}

namespace BoundedStore

/-- The number of bytes that a key may have. -/
def maxKeySize : Nat := 511

/-- What the replacement of an overlong key begins with. -/
def digestMark : String := "#sha256:"

/-- The key under which an entry is kept. -/
def storageKey (key : String) : String :=
  if key.utf8ByteSize ≤ maxKeySize then key
  else digestMark ++ Sha256.hexDigest key.toUTF8

/-- The refusal of a key that the store has no place for. -/
def badKey : EnvironmentError :=
  .transaction
    "MDB_BAD_VALSIZE: Unsupported size of key/DB name/data, or wrong DUPFIXED size"

/-- Refuses an empty key and answers otherwise. -/
def call (c : Call) (s : BoundedStore) : Except CacheError c.Reply × BoundedStore :=
  if c.key.isEmpty then (.error badKey.toCacheError, s)
  else
    let (reply, table) := s.table.call (storageKey c.key) c
    (.ok reply, ⟨table⟩)

/-- The store opened again: the entries stay, the counters begin anew. -/
def reopen (s : BoundedStore) : BoundedStore := ⟨{ entries := s.table.entries }⟩

instance : CacheStore BoundedStore where
  call := call
  stats := fun s => (.ok s.table.stats, s)
  delay := fun _ => 0

end BoundedStore

end QueryCache
