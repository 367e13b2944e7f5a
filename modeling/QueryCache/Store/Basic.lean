import QueryCache.Assoc
import QueryCache.Error
import QueryCache.Json.Basic

/-!
# Stores

A store maps keys to bytes. It is called to get, set or delete an entry, answers with a reply or an
error, and counts what it does.

## Main definitions

* `Call`, `Call.Reply` : the calls, each with the type of its reply.
* `CacheStore` : what a store does with a call.
* `Stats` : what a store has done so far.
-/

namespace QueryCache

/-- A call to a store. -/
inductive Call where
  | get (key : String)
  | set (key : String) (value : ByteArray)
  | delete (key : String)

namespace Call

/-- The reply to a call: the value under the key, nothing, or whether there was an entry. -/
@[reducible] def Reply : Call → Type
  | .get _ => Option ByteArray
  | .set _ _ => Unit
  | .delete _ => Bool

/-- The key that a call is about. -/
def key : Call → String
  | .get key => key
  | .set key _ => key
  | .delete key => key

end Call

/-- The calls of a store, without their arguments. -/
inductive CallKind where
  | get
  | set
  | delete
  | stats
deriving DecidableEq

namespace CallKind

/-- The name of a kind of call. -/
def name : CallKind → String
  | .get => "get"
  | .set => "set"
  | .delete => "delete"
  | .stats => "stats"

end CallKind

/-- The kind of a call. -/
def Call.kind : Call → CallKind
  | .get _ => .get
  | .set _ _ => .set
  | .delete _ => .delete

/-- What a store has done so far and how much it holds. -/
structure Stats where
  /-- Values found. -/
  hits : Nat := 0
  /-- Values not found. -/
  misses : Nat := 0
  /-- Values set. -/
  writes : Nat := 0
  /-- Entries removed. -/
  deletes : Nat := 0
  /-- Entries held. -/
  entryCount : Nat := 0
deriving DecidableEq

namespace Stats

/-- The part of all lookups that found a value; zero without lookups. -/
def hitRate (s : Stats) : Double :=
  let total := s.hits + s.misses
  if total = 0 then Double.ofFloat 0
  else Double.ofFloat (Float.ofNat s.hits / Float.ofNat total)

end Stats

/-- A store of type `σ`. -/
class CacheStore (σ : Type) where
  /-- What a call answers and leaves behind. -/
  call : (c : Call) → σ → Except CacheError c.Reply × σ
  /-- What the store has done so far. -/
  stats : σ → Except CacheError Stats × σ
  /-- The milliseconds that pass before the store acts on a call. -/
  delay : σ → Nat

/-- A map of entries with counters. -/
structure Table where
  entries : Assoc ByteArray := []
  /-- The counters; the number of entries is not kept here. -/
  counters : Stats := {}

namespace Table

/-- The value under a key; counts a hit or a miss. -/
def get (t : Table) (key : String) : Option ByteArray × Table :=
  match t.entries.lookup key with
  | some value => (some value, { t with counters.hits := t.counters.hits + 1 })
  | none => (none, { t with counters.misses := t.counters.misses + 1 })

/-- Sets the value under a key. -/
def set (t : Table) (key : String) (value : ByteArray) : Table :=
  { t with entries := t.entries.insert key value, counters.writes := t.counters.writes + 1 }

/-- Removes the entry under a key, and says whether there was one. -/
def delete (t : Table) (key : String) : Bool × Table :=
  match t.entries.lookup key with
  | some _ =>
    (true, { t with entries := t.entries.erase key, counters.deletes := t.counters.deletes + 1 })
  | none => (false, t)

/-- The counters with the number of entries. -/
def stats (t : Table) : Stats := { t.counters with entryCount := t.entries.length }

/-- What a call answers and leaves behind under the given key. -/
def call (t : Table) (key : String) : (c : Call) → c.Reply × Table
  | .get _ => t.get key
  | .set _ value => ((), t.set key value)
  | .delete _ => t.delete key

end Table

end QueryCache
