/-!
# The capacity gate

A gate hands out a fixed number of units. Permits of any weight are granted in the order in which
they were asked for. A request that cannot be met at once takes what is there and waits for the
rest; returned units go to the request that has waited longest until it is complete, and then to
the next. Giving up returns what was taken in the same way. A closed gate grants nothing any more.

Each request is known by its ticket, so that the state of the gate says how a request stands.

## Main definitions

* `Gate` : units, permits and waiting requests.
* `Gate.acquire`, `Gate.drop`, `Gate.close` : the operations.
* `Gate.holds`, `Gate.waits` : how a request stands.
-/

namespace QueryCache

/-- A granted request. -/
structure Permit where
  ticket : Nat
  weight : Nat
deriving DecidableEq

/-- A request that waits for more units. -/
structure Waiter where
  ticket : Nat
  /-- The units it needs. -/
  weight : Nat
  /-- The units it has. -/
  taken : Nat
deriving DecidableEq

/-- A gate for a fixed number of units. -/
structure Gate where
  capacity : Nat
  /-- The units that nobody has. -/
  free : Nat
  /-- The waiting requests, the oldest first. -/
  queue : List Waiter
  permits : List Permit
  closed : Bool
deriving DecidableEq

namespace Gate

/-- The largest capacity of a gate. -/
def maxCapacity : Nat := 0xffffffff

/-- A gate with all units free. -/
def ofCapacity (capacity : Nat) : Gate :=
  let capacity := min capacity maxCapacity
  ⟨capacity, capacity, [], [], false⟩

/-- Every request needs at least one unit and at most all there are. -/
def clampWeight (g : Gate) (weight : Nat) : Nat := max 1 (min weight (max 1 g.capacity))

/-- The request of a ticket has been granted. -/
def holds (g : Gate) (ticket : Nat) : Bool := g.permits.any fun p => p.ticket == ticket

/-- The request of a ticket waits. -/
def waits (g : Gate) (ticket : Nat) : Bool := g.queue.any fun w => w.ticket == ticket

/-- The units that permits stand for. -/
def unitsHeld : List Permit → Nat
  | [] => 0
  | p :: rest => p.weight + unitsHeld rest

/-- The units that waiting requests have so far. -/
def unitsTaken : List Waiter → Nat
  | [] => 0
  | w :: rest => w.taken + unitsTaken rest

/-- Serves waiting requests with units: those that become complete, those that go on waiting, and
the units that are left. -/
def serve (units : Nat) : List Waiter → List Permit × List Waiter × Nat
  | [] => ([], [], units)
  | w :: rest =>
    if w.weight ≤ w.taken + units then
      let (granted, waiting, left) := serve (w.taken + units - w.weight) rest
      (⟨w.ticket, w.weight⟩ :: granted, waiting, left)
    else ([], { w with taken := w.taken + units } :: rest, 0)

/-- Returns units to the gate. -/
def deposit (g : Gate) (units : Nat) : Gate :=
  let (granted, waiting, left) := serve units g.queue
  { g with free := g.free + left, queue := waiting, permits := g.permits ++ granted }

/-- Asks for units. A closed gate refuses. -/
def acquire (g : Gate) (ticket weight : Nat) : Gate :=
  let weight := g.clampWeight weight
  if g.closed then g
  else if weight ≤ g.free then
    { g with free := g.free - weight, permits := g.permits ++ [⟨ticket, weight⟩] }
  else { g with free := 0, queue := g.queue ++ [⟨ticket, weight, g.free⟩] }

/-- The units that a ticket has, by a permit or while it waits. -/
def unitsOf (g : Gate) (ticket : Nat) : Nat :=
  unitsHeld (g.permits.filter fun p => p.ticket == ticket) +
    unitsTaken (g.queue.filter fun w => w.ticket == ticket)

/-- Gives up the permit or the place of a ticket and returns its units. -/
def drop (g : Gate) (ticket : Nat) : Gate :=
  { g with
    permits := g.permits.filter fun p => p.ticket != ticket
    queue := g.queue.filter fun w => w.ticket != ticket }.deposit (g.unitsOf ticket)

/-- Closes the gate: waiting requests are sent away, permits stay. -/
def close (g : Gate) : Gate :=
  { g with
    free := g.free + unitsTaken g.queue
    queue := []
    closed := true }

end Gate

end QueryCache
