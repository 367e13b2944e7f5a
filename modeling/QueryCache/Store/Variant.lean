import QueryCache.Store.Bounded
import QueryCache.Store.Faulty

/-!
# A store of any kind

The sum of the stores, for a session whose store is chosen when it begins, with the means to look
behind a store's calls.
-/

namespace QueryCache

/-- A store of any kind. -/
inductive Store where
  | memory (s : MemoryStore)
  | recording (s : RecordingStore)
  | failing (s : FailingStore)
  | slow (s : SlowStore)
  | faulty (s : FaultyStore)
  | bounded (s : BoundedStore)

namespace Store

/-- The answer of the store behind. -/
def call (c : Call) : Store → Except CacheError c.Reply × Store
  | .memory s => (fun (r, s) => (r, .memory s)) (s.call c)
  | .recording s => (fun (r, s) => (r, .recording s)) (s.call c)
  | .failing s => (fun (r, s) => (r, .failing s)) (s.call c)
  | .slow s => (fun (r, s) => (r, .slow s)) (s.call c)
  | .faulty s => (fun (r, s) => (r, .faulty s)) (s.call c)
  | .bounded s => (fun (r, s) => (r, .bounded s)) (s.call c)

/-- The table behind the store. -/
def table : Store → Table
  | .memory s => s.table
  | .recording s => s.inner.table
  | .failing s => s.inner.table
  | .slow s => s.inner.table
  | .faulty s => s.inner.inner.table
  | .bounded s => s.table

/-- What the store has done so far. -/
def stats : Store → Except CacheError Stats × Store
  | .failing s => (.error FailingStore.refusal, .failing s)
  | .faulty s => (fun (r, s) => (r, .faulty s)) s.stats
  | s => (.ok s.table.stats, s)

/-- The milliseconds that pass before the store acts. -/
def delay : Store → Nat
  | .slow s => s.delay
  | _ => 0

instance : CacheStore Store where
  call := call
  stats := stats
  delay := delay

/-- Changes the table behind the store. -/
def modifyTable (f : Table → Table) : Store → Store
  | .memory s => .memory ⟨f s.table⟩
  | .recording s => .recording { s with inner := ⟨f s.inner.table⟩ }
  | .failing s => .failing { s with inner := ⟨f s.inner.table⟩ }
  | .slow s => .slow { s with inner := ⟨f s.inner.table⟩ }
  | .faulty s => .faulty { s with inner := { s.inner with inner := ⟨f s.inner.inner.table⟩ } }
  | .bounded s => .bounded ⟨f s.table⟩

/-- The key under which the table has an entry. -/
def tableKey : Store → String → String
  | .bounded _, key => BoundedStore.storageKey key
  | _, key => key

/-- Sets an entry behind the store's back. -/
def setBehind (s : Store) (key : String) (value : ByteArray) : Store :=
  s.modifyTable fun t => t.set (s.tableKey key) value

/-- The calls of the store so far, where it keeps a log. -/
def log? : Store → Option (List (CallKind × String))
  | .recording s => some s.log
  | .faulty s => some s.inner.log
  | _ => none

/-- The entries, where they can be listed. -/
def entries? : Store → Option (Assoc ByteArray)
  | .bounded _ => none
  | s => some s.table.entries

/-- The store opened again. Only a store on disk keeps its entries. -/
def reopen : Store → Store
  | .memory _ => .memory {}
  | .recording _ => .recording {}
  | .failing s => .failing { mode := s.mode }
  | .slow s => .slow { delay := s.delay }
  | .faulty s => .faulty { faults := s.faults }
  | .bounded s => .bounded s.reopen

end Store

end QueryCache
