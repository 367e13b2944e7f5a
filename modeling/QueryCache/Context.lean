import QueryCache.Error

/-!
# Contexts

A context limits a piece of work in time: by a deadline, and by a moment at which the work is
cancelled. Times are whole milliseconds on one clock. Whenever work is looked at, the context comes
first: a cancellation wins over a deadline, and both win over work that is done at the same moment.

## Main definitions

* `Context` : deadline and cancellation.
* `Context.verdict?` : the error with which the context stops work at a given moment.
-/

namespace QueryCache

/-- Limits in time for a piece of work. -/
structure Context where
  deadline : Option Nat := none
  /-- The moment at which the work is cancelled. -/
  cancelAt : Option Nat := none
deriving DecidableEq

namespace Context

/-- No limits. -/
def background : Context := {}

/-- The work must be done before a moment. -/
def withDeadline (c : Context) (deadline : Nat) : Context := { c with deadline := some deadline }

/-- The work must be done within a time from now on. -/
def withTimeout (c : Context) (now timeout : Nat) : Context := c.withDeadline (now + timeout)

/-- The work is cancelled at the given moment, if at all. -/
def withCancel (c : Context) (cancelAt : Option Nat) : Context := { c with cancelAt := cancelAt }

/-- A time limit for work that has no deadline yet. -/
def orTimeout (c : Context) (now : Nat) (timeout : Option Nat) : Context :=
  match c.deadline, timeout with
  | none, some timeout => c.withTimeout now timeout
  | _, _ => c

/-- A moment has come. -/
def reached (moment : Option Nat) (now : Nat) : Bool := moment.any fun t => decide (t ≤ now)

/-- The error with which the context stops work that began at `started`. -/
def verdict? (c : Context) (started now : Nat) : Option CacheError :=
  if reached c.cancelAt now then some .cancelled
  else if reached c.deadline now then some (.timeout (now - started))
  else none

/-- Runs work that is done at once. -/
def runReady {α : Type} (c : Context) (now : Nat) (work : α) : Except CacheError α :=
  match c.verdict? now now with
  | some e => .error e
  | none => .ok work

/-- The time that is left until the deadline. -/
def timeLeft (c : Context) (now : Nat) : Option Nat := c.deadline.map fun t => t - now

end Context

end QueryCache
