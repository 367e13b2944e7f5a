import QueryCache.Context
import QueryCache.Gate
import QueryCache.Store.Basic

/-!
# Guarded calls that run together

Several actions on a store start at one moment and run side by side under one context. Each needs
one unit of the gate while it is under way; once it has the unit the store lets its delay pass and
then acts. The clock moves straight to the next moment at which something can happen. At each
moment the context is looked at first and then the actions, in their order.

The first failure ends the whole: actions that have not started are never made, those under way are
given up before they act, and all units go back to the gate.

## Main definitions

* `World` : clock, gate and store.
* `Flight` : an action on its way.
* `World.fanOut` : runs actions together; `none` if they wait for ever.
-/

namespace QueryCache

/-- Clock, gate and store, with a count of the tickets, identifiers and fetches so far. -/
structure World (σ : Type) where
  now : Nat
  gate : Gate
  store : σ
  /-- The ticket of the next request at the gate. -/
  nextTicket : Nat := 0
  /-- The identifiers minted so far. -/
  minted : Nat := 0
  /-- The fetches from the primary store so far. -/
  fetched : Nat := 0

/-- How far an action has come. -/
inductive Stage (β : Type) where
  | idle
  /-- For a unit of the gate. -/
  | waiting
  /-- With a unit, until the store acts. -/
  | working (ready : Nat)
  | finished (result : β)

/-- An action on its way. -/
structure Flight (σ β : Type) where
  ticket : Nat
  action : σ → Except CacheError β × σ
  stage : Stage β

namespace Stage

variable {β : Type}

/-- The result of a finished action. -/
def result? : Stage β → Option β
  | .finished result => some result
  | _ => none

/-- The moment at which an action under way is ready. -/
def ready? : Stage β → Option Nat
  | .working ready => some ready
  | _ => none

end Stage

namespace Flight

variable {σ β : Type}

/-- Lets the store act, and returns the unit. -/
def act (f : Flight σ β) (w : World σ) : Except CacheError (Flight σ β) × World σ :=
  match f.action w.store with
  | (.ok result, store) =>
    (.ok { f with stage := .finished result },
      { w with store := store, gate := w.gate.drop f.ticket })
  | (.error e, store) => (.error e, { w with store := store })

/-- Goes on from the gate: acts or begins to work with a unit, waits without one, and fails if the
gate turned it away. -/
def pass (delay : Nat) (f : Flight σ β) (w : World σ) :
    Except CacheError (Flight σ β) × World σ :=
  if w.gate.holds f.ticket then
    if delay = 0 then f.act w else (.ok { f with stage := .working (w.now + delay) }, w)
  else if w.gate.waits f.ticket then (.ok { f with stage := .waiting }, w)
  else (.error .gateClosed, w)

/-- Looks at an action, which goes on as far as it can. -/
def poll (delay : Nat) (f : Flight σ β) (w : World σ) :
    Except CacheError (Flight σ β) × World σ :=
  match f.stage with
  | .idle => f.pass delay { w with gate := w.gate.acquire f.ticket 1 }
  | .waiting => f.pass delay w
  | .working ready => if ready ≤ w.now then f.act w else (.ok f, w)
  | .finished _ => (.ok f, w)

/-- Looks at actions in their order, up to the first failure. -/
def pollAll (delay : Nat) : List (Flight σ β) → World σ →
    Except CacheError (List (Flight σ β)) × World σ
  | [], w => (.ok [], w)
  | f :: rest, w =>
    match f.poll delay w with
    | (.error e, w) => (.error e, w)
    | (.ok f, w) =>
      match pollAll delay rest w with
      | (.error e, w) => (.error e, w)
      | (.ok others, w) => (.ok (f :: others), w)

/-- The results, once all actions are finished. -/
def results? (flights : List (Flight σ β)) : Option (List β) :=
  flights.mapM fun f => f.stage.result?

/-- The next moment at which something can happen. -/
def nextMoment? (context : Context) (flights : List (Flight σ β)) : Option Nat :=
  (context.deadline.toList ++ context.cancelAt.toList ++
    flights.filterMap fun f => f.stage.ready?).min?

end Flight

namespace World

variable {σ β : Type}

/-- Gives up all actions. -/
def abandon (w : World σ) (flights : List (Flight σ β)) : World σ :=
  { w with gate := flights.foldl (fun g f => g.drop f.ticket) w.gate }

/-- Runs actions that began at `started` until all are finished or one fails. Whenever time moves an
action finishes or the context ends the run, so `fuel` needs to exceed the number of actions by
one. -/
def fly (context : Context) (started delay : Nat) :
    Nat → List (Flight σ β) → World σ → Option (Except CacheError (List β)) × World σ
  | 0, _, w => (none, w)
  | fuel + 1, flights, w =>
    match context.verdict? started w.now with
    | some e => (some (.error e), w.abandon flights)
    | none =>
      match Flight.pollAll delay flights w with
      | (.error e, w) => (some (.error e), w.abandon flights)
      | (.ok flights, w) =>
        match Flight.results? flights with
        | some results => (some (.ok results), w)
        | none =>
          match Flight.nextMoment? context flights with
          | none => (none, w)
          | some moment => fly context started delay fuel flights { w with now := moment }

/-- Actions with tickets in their order, none of them begun. -/
def flightsOf (w : World σ) (actions : List (σ → Except CacheError β × σ)) :
    List (Flight σ β) :=
  actions.mapIdx fun i action => ⟨w.nextTicket + i, action, .idle⟩

variable [CacheStore σ]

/-- Runs actions together under a context. -/
def fanOut (w : World σ) (context : Context) (actions : List (σ → Except CacheError β × σ)) :
    Option (Except CacheError (List β)) × World σ :=
  fly context w.now (CacheStore.delay w.store) (actions.length + 2) (w.flightsOf actions)
    { w with nextTicket := w.nextTicket + actions.length }

/-- Runs a single call under a context. -/
def guarded (w : World σ) (context : Context) (c : Call) :
    Option (Except CacheError c.Reply) × World σ :=
  match w.fanOut context [CacheStore.call c] with
  | (some (.ok (reply :: _)), w) => (some (.ok reply), w)
  | (some (.error e), w) => (some (.error e), w)
  | (_, w) => (none, w)

/-- Runs calls together under a context, without a look at their replies. -/
def guardedAll (w : World σ) (context : Context) (calls : List Call) :
    Option (Except CacheError Unit) × World σ :=
  let action (c : Call) (store : σ) : Except CacheError Unit × σ :=
    match CacheStore.call c store with
    | (.ok _, store) => (.ok (), store)
    | (.error e, store) => (.error e, store)
  match calls with
  | [] => (some (.ok ()), w)
  | _ =>
    match w.fanOut context (calls.map action) with
    | (some (.ok _), w) => (some (.ok ()), w)
    | (some (.error e), w) => (some (.error e), w)
    | (none, w) => (none, w)

/-- Makes a call directly: it needs no unit of the gate, and nothing stops it. -/
def direct (w : World σ) (c : Call) : Except CacheError c.Reply × World σ :=
  let (reply, store) := CacheStore.call c w.store
  (reply, { w with store := store, now := w.now + CacheStore.delay w.store })

end World

end QueryCache
