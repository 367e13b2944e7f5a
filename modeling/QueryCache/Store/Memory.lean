import QueryCache.Store.Basic

/-!
# Stores in memory

The plain store, and three variations for tests: one that keeps a log of its calls, one that
refuses calls, and one that takes its time.

## Main definitions

* `MemoryStore`, `RecordingStore`, `FailingStore`, `SlowStore`.
-/

namespace QueryCache

/-- A store in memory. It never fails. -/
structure MemoryStore where
  table : Table := {}

namespace MemoryStore

/-- The reply to a call. -/
def call (c : Call) (s : MemoryStore) : Except CacheError c.Reply × MemoryStore :=
  let (reply, table) := s.table.call c.key c
  (.ok reply, ⟨table⟩)

instance : CacheStore MemoryStore where
  call := call
  stats := fun s => (.ok s.table.stats, s)
  delay := fun _ => 0

end MemoryStore

/-- A store in memory that keeps a log of its calls. -/
structure RecordingStore where
  inner : MemoryStore := {}
  /-- Kind and key of every call, the oldest first. -/
  log : List (CallKind × String) := []

namespace RecordingStore

/-- Notes the call and answers it. -/
def call (c : Call) (s : RecordingStore) : Except CacheError c.Reply × RecordingStore :=
  let (reply, inner) := s.inner.call c
  (reply, ⟨inner, s.log ++ [(c.kind, c.key)]⟩)

instance : CacheStore RecordingStore where
  call := call
  stats := fun s => (.ok s.inner.table.stats, s)
  delay := fun _ => 0

end RecordingStore

/-- Which calls a failing store refuses. -/
inductive FailureMode where
  | all
  /-- All but reading. -/
  | writes
deriving DecidableEq

/-- A store that refuses calls. -/
structure FailingStore where
  inner : MemoryStore := {}
  mode : FailureMode := .all

namespace FailingStore

/-- The answer to a refused call. -/
def refusal : CacheError := .transport "connection refused"

/-- Answers what may be read and refuses everything else. -/
def call (c : Call) (s : FailingStore) : Except CacheError c.Reply × FailingStore :=
  match s.mode, c.kind with
  | .writes, .get =>
    let (reply, inner) := s.inner.call c
    (reply, { s with inner := inner })
  | _, _ => (.error refusal, s)

instance : CacheStore FailingStore where
  call := call
  stats := fun s => (.error refusal, s)
  delay := fun _ => 0

end FailingStore

/-- A store in memory that waits before it acts. -/
structure SlowStore where
  inner : MemoryStore := {}
  delay : Nat := 0

namespace SlowStore

/-- Answers like a store in memory. -/
def call (c : Call) (s : SlowStore) : Except CacheError c.Reply × SlowStore :=
  let (reply, inner) := s.inner.call c
  (reply, { s with inner := inner })

instance : CacheStore SlowStore where
  call := call
  stats := fun s => (.ok s.inner.table.stats, s)
  delay := SlowStore.delay

end SlowStore

end QueryCache
