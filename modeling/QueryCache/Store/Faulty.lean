import QueryCache.Store.Memory

/-!
# Stores with scripted faults

A recording store that fails where a script says so: at the n-th call of some kind, at a key, or at
both. A failed call is counted, but reaches neither the log nor the entries.
-/

namespace QueryCache

/-- A rule for failing. -/
structure Fault where
  on : CallKind
  /-- The number of the call among those of its kind, from one; any if absent. -/
  nth : Option Nat := none
  /-- The key of the call; any if absent. -/
  key : Option String := none
  error : CacheError

namespace Fault

/-- Whether the rule applies to the `n`-th call of a kind, about a key if it has one. -/
def applies (f : Fault) (kind : CallKind) (n : Nat) (key : Option String) : Bool :=
  f.on == kind && f.nth.all (· == n) && (f.key.isNone || f.key == key)

end Fault

/-- A recording store that fails by a script. -/
structure FaultyStore where
  inner : RecordingStore := {}
  faults : List Fault := []
  /-- The kinds of all calls so far, failed ones included. -/
  calls : List CallKind := []

namespace FaultyStore

/-- Counts a call. -/
def count (s : FaultyStore) (kind : CallKind) : FaultyStore := { s with calls := kind :: s.calls }

/-- The error with which the latest call fails, by the first rule that applies. -/
def fault? (s : FaultyStore) (kind : CallKind) (key : Option String) : Option CacheError :=
  let n := s.calls.count kind
  (s.faults.find? fun f => f.applies kind n key).map Fault.error

/-- Fails by the script or answers. -/
def call (c : Call) (s : FaultyStore) : Except CacheError c.Reply × FaultyStore :=
  let s := s.count c.kind
  match s.fault? c.kind (some c.key) with
  | some e => (.error e, s)
  | none =>
    let (reply, inner) := s.inner.call c
    (reply, { s with inner := inner })

/-- Fails by the script or answers. -/
def stats (s : FaultyStore) : Except CacheError Stats × FaultyStore :=
  let s := s.count .stats
  match s.fault? .stats none with
  | some e => (.error e, s)
  | none => (.ok s.inner.inner.table.stats, s)

instance : CacheStore FaultyStore where
  call := call
  stats := stats
  delay := fun _ => 0

end FaultyStore

end QueryCache
