import QueryCache.Cache
import QueryCache.Store.Variant

/-!
# Sessions

A session is a cache in use: its configuration, a store, a gate and a clock. Operations are run one
after the other, each under its own context. Between them units of the gate may be held, the gate
may be closed or exchanged, and the store may be looked at directly.

## Main definitions

* `Session`, `Session.start?` : sessions and their beginning.
* `Session.run` : runs a plan.
* `Session.hold`, `Session.release`, `Session.closeGate`, `Session.newGate`, `Session.reopen`.
-/

namespace QueryCache

/-- A unit of the gate held by name. -/
structure Hold where
  name : String
  ticket : Nat
  /-- Which gate it belongs to, counted from the first one. -/
  gate : Nat

/-- A cache in use. -/
structure Session where
  config : Config
  /-- The identifiers in the order in which they are minted. -/
  ids : Nat → RecordId
  world : World Store
  /-- The units held, at most once per name. -/
  holds : List Hold := []
  /-- How many gates have been exchanged. -/
  gates : Nat := 0

namespace Session

/-- A session with a fresh gate at time zero. The configuration is checked. -/
def start? (config : Config) (ids : Nat → RecordId) (store : Store) :
    Except ConfigError Session := do
  config.validate
  return { config, ids, world := { now := 0, gate := Gate.ofCapacity config.maxInFlight, store } }

/-- Runs a plan under a context, with the answers of a primary store. -/
def run {ν α : Type} (s : Session) (context : Context) (primary : Query → Except Error (Option ν))
    (plan : Plan ν α) : Option (Except Error α) × Session :=
  let (result, world) := plan.run ⟨context, s.config.opTimeout, s.ids, primary⟩ s.world
  (result, { s with world := world })

/-- Runs a plan that has no primary store to ask. -/
def runCached {α : Type} (s : Session) (context : Context) (plan : Plan Empty α) :
    Option (Except Error α) × Session :=
  s.run context (fun _ => .ok none) plan

/-- Makes a call directly on the store. -/
def direct (s : Session) (c : Call) : Except CacheError c.Reply × Session :=
  let (reply, world) := s.world.direct c
  (reply, { s with world := world })

/-- What the store says it has done. -/
def stats (s : Session) : Except CacheError Stats × Session :=
  let (stats, store) := CacheStore.stats s.world.store
  (stats, { s with world := { s.world with store := store } })

/-- Sets an entry behind the store's back. -/
def setBehind (s : Session) (key : String) (value : ByteArray) : Session :=
  { s with world := { s.world with store := s.world.store.setBehind key value } }

/-- Returns the units held under a name. Also says whether there are any. -/
def release (s : Session) (name : String) : Bool × Session :=
  match s.holds.find? fun h => h.name == name with
  | none => (false, s)
  | some held =>
    let holds := s.holds.filter fun h => h.name != name
    let gate := if held.gate = s.gates then s.world.gate.drop held.ticket else s.world.gate
    (true, { s with holds := holds, world := { s.world with gate := gate } })

/-- Notes a permit under a name. Units held under the name before are returned. -/
def keep (s : Session) (name : String) (ticket : Nat) : Session :=
  let s := (s.release name).2
  { s with holds := s.holds ++ [⟨name, ticket, s.gates⟩] }

/-- Holds units of the gate under a name. The wait ends with the context, at its cancellation or
its deadline, whichever comes first; without either it may last for ever. -/
def hold (s : Session) (context : Context) (name : String) (weight : Nat) :
    Option (Except CacheError Unit) × Session :=
  let w := s.world
  match context.verdict? w.now w.now with
  | some e => (some (.error e), s)
  | none =>
    let ticket := w.nextTicket
    let gate := w.gate.acquire ticket weight
    let asked := { w with gate := gate, nextTicket := ticket + 1 }
    if gate.holds ticket then
      (some (.ok ()), { s with world := asked }.keep name ticket)
    else if gate.waits ticket then
      let ends := context.cancelAt.toList ++ context.deadline.toList
      match ends.min? with
      | none => (none, { s with world := asked })
      | some moment =>
        let world := { asked with now := moment, gate := gate.drop ticket }
        ((context.verdict? w.now moment).map .error, { s with world := world })
    else (some (.error .gateClosed), { s with world := asked })

/-- Closes the gate. -/
def closeGate (s : Session) : Session :=
  { s with world := { s.world with gate := s.world.gate.close } }

/-- Goes on with a fresh gate. -/
def newGate (s : Session) (capacity : Nat) : Session :=
  { s with
    world := { s.world with gate := Gate.ofCapacity capacity }
    gates := s.gates + 1 }

/-- Drops everything but the clock and what the store keeps, and begins again. -/
def reopen (s : Session) : Session :=
  let s := s.newGate s.config.maxInFlight
  { s with world := { s.world with store := s.world.store.reopen }, holds := [] }

end Session

end QueryCache
