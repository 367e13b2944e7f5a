import QueryCache.Context
import QueryCache.Gate

/-!
# Requests at a gate over time

Independent parties ask one gate for permits, each under a context of its own, and keep what they
get until they release it. Time passes only when it is told to; on the way every deadline is
honoured at its moment, so that units given up then reach the requests still waiting.

## Main definitions

* `Acquisitions` : clock, gate and all requests so far.
* `Acquisitions.acquire`, `release`, `close`, `cancel`, `advance`, `work` : what can happen.
* `Acquisitions.standing` : how a request stands.
-/

namespace QueryCache

/-- How a request ended, or how it stands. -/
inductive Standing where
  | waiting
  | held
  /-- Released by its party. -/
  | gone
  | failed (cause : CacheError)
deriving DecidableEq

/-- A request for a permit. -/
structure Acquisition where
  name : String
  ticket : Nat
  started : Nat
  deadline : Option Nat
  /-- The token whose cancellation ends the wait. -/
  token : Option String
  /-- How the request ended, apart from what the gate knows. -/
  ended : Option Standing

/-- A gate with all requests so far. -/
structure Acquisitions where
  now : Nat
  gate : Gate
  /-- The tokens cancelled so far, with the moment. -/
  cancelled : Assoc Nat
  /-- The requests, the oldest first. -/
  requests : List Acquisition

namespace Acquisitions

/-- A gate that nobody has used. -/
def ofCapacity (capacity : Nat) : Acquisitions := ⟨0, Gate.ofCapacity capacity, [], []⟩

/-- How a request stands. One that the gate does not know was turned away when the gate closed. -/
def standing (s : Acquisitions) (a : Acquisition) : Standing :=
  match a.ended with
  | some ending => ending
  | none =>
    if s.gate.holds a.ticket then .held
    else if s.gate.waits a.ticket then .waiting
    else .failed .gateClosed

/-- The context with a deadline and a token. -/
def contextOf (s : Acquisitions) (deadline : Option Nat) (token : Option String) : Context :=
  ⟨deadline, token.bind fun name => s.cancelled.lookup name⟩

/-- The error that ends a waiting request now. -/
def verdict? (s : Acquisitions) (a : Acquisition) : Option CacheError :=
  if s.standing a = .waiting then
    (s.contextOf a.deadline a.token).verdict? a.started s.now
  else none

/-- Ends all waiting requests that their contexts stop now, and returns their units. -/
def settle (s : Acquisitions) : Acquisitions :=
  let stopped := s.requests.filter fun a => (s.verdict? a).isSome
  let requests := s.requests.map fun a =>
    match s.verdict? a with
    | some cause => { a with ended := some (.failed cause) }
    | none => a
  { s with
    gate := stopped.foldl (fun g a => g.drop a.ticket) s.gate
    requests := requests }

/-- Lets time pass up to a moment without a look at what happens on the way. -/
def jump (s : Acquisitions) (moment : Nat) : Acquisitions := { s with now := moment }.settle

/-- Lets time pass up to a moment. -/
def advance (s : Acquisitions) (moment : Nat) : Acquisitions :=
  let deadlines := s.requests.filterMap Acquisition.deadline
  let between := deadlines.filter fun t => decide (s.now < t ∧ t < moment)
  ((between.mergeSort (fun a b => decide (a ≤ b))).foldl jump s).jump moment

/-- Asks for a permit, within a time if one is given. The request is not made if its token has been
cancelled or its time is up already. -/
def acquire (s : Acquisitions) (name : String) (weight : Nat) (timeout : Option Nat)
    (token : Option String) : Acquisitions :=
  let deadline := timeout.map fun t => s.now + t
  let ticket := s.requests.length
  match (s.contextOf deadline token).verdict? s.now s.now with
  | some cause =>
    { s with
      requests := s.requests ++ [⟨name, ticket, s.now, deadline, token, some (.failed cause)⟩] }
  | none =>
    { s with
      gate := s.gate.acquire ticket weight
      requests := s.requests ++ [⟨name, ticket, s.now, deadline, token, none⟩] }

/-- The latest request of a name gives up its permit or its place. Also says whether there is
one. -/
def release (s : Acquisitions) (name : String) : Bool × Acquisitions :=
  match s.requests.reverse.find? fun a => a.name == name with
  | none => (false, s)
  | some found =>
    let requests := s.requests.map fun a =>
      if a.ticket = found.ticket then { a with ended := some .gone } else a
    (true, { s with gate := s.gate.drop found.ticket, requests := requests })

/-- Closes the gate. -/
def close (s : Acquisitions) : Acquisitions := { s with gate := s.gate.close }

/-- Whether a token has been cancelled. -/
def isCancelled (s : Acquisitions) (token : String) : Bool := (s.cancelled.lookup token).isSome

/-- Cancels a token. -/
def cancel (s : Acquisitions) (token : String) : Acquisitions :=
  if s.isCancelled token then s
  else { s with cancelled := s.cancelled.insert token s.now }.settle

/-- Works for a time, within a time limit if one is given. The result is the time worked. -/
def work (s : Acquisitions) (duration : Nat) (timeout : Option Nat) (token : Option String) :
    Except CacheError Nat × Acquisitions :=
  let deadline := timeout.map fun t => s.now + t
  match (s.contextOf deadline token).verdict? s.now s.now, timeout with
  | some cause, _ => (.error cause, s)
  | none, some limit =>
    if limit ≤ duration then (.error (.timeout limit), s.advance (s.now + limit))
    else (.ok duration, s.advance (s.now + duration))
  | none, none => (.ok duration, s.advance (s.now + duration))

end Acquisitions

end QueryCache
