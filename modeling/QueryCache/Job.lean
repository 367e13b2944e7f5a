import QueryCache.Context
import QueryCache.Gate

/-!
# Work under a context

A job asks the gate for units, waits until it has them, and goes on from there in steps, which may
change a store, until it has a result. Others use the same gate and the same store meanwhile.

Time goes on by milliseconds. At each of them a job is looked at once, and again after everything
that others do then. Whenever it is looked at, its context comes first: a job that the context stops
is given up, and returns its units or leaves its place at the gate.

## Main definitions

* `Job`, `Job.poll` : a job and its steps.
* `Job.look` : a look at a job under a context.
* `Others` : what others do to the gate and the store.
* `Job.run` : a job among others, up to a moment.
-/

namespace QueryCache

/-- A gate and a store that several parties use. -/
structure Shared (σ : Type) where
  gate : Gate
  store : σ

/-- What others do. The store may hold whatever they need to remember. -/
structure Others (σ : Type) where
  /-- At a moment, before a job is looked at for the first time. -/
  before : Nat → Shared σ → Shared σ
  /-- At a moment, one thing after the other. -/
  after : Nat → List (Shared σ → Shared σ)

namespace Others

variable {σ : Type}

/-- There is nobody else. -/
def nobody : Others σ := ⟨fun _ x => x, fun _ => []⟩

/-- What others do at a moment after the first look. -/
def later (others : Others σ) (now : Nat) (x : Shared σ) : Shared σ :=
  (others.after now).foldl (fun x change => change x) x

/-- What others do at a moment. -/
def move (others : Others σ) (now : Nat) (x : Shared σ) : Shared σ :=
  others.later now (others.before now x)

/-- What others do from a moment on, for a number of milliseconds. -/
def moves (others : Others σ) (start : Nat) (x : Shared σ) : Nat → Shared σ
  | 0 => x
  | n + 1 => others.move (start + n) (others.moves start x n)

end Others

/-- A job. Its points are where it stands while it works. -/
structure Job (σ τ β : Type) where
  /-- The ticket of its request at the gate. -/
  ticket : Nat
  weight : Nat
  /-- Where it begins once it has its units. -/
  start : τ
  /-- What it does at a moment: it gets to another point, or has a result. -/
  step : Nat → τ → σ → (τ ⊕ Except CacheError β) × σ
  /-- Its permit is handed on with the result, rather than returned. -/
  keeps : Bool := false

/-- How far a job has come. -/
inductive Job.Stage (τ β : Type) where
  | idle
  /-- For units of the gate. -/
  | waiting
  /-- With its units. -/
  | working (point : τ)
  | ended (moment : Nat) (result : Except CacheError β)

/-- A job on its way, with what it shares with others. -/
structure Job.State (σ τ β : Type) extends Shared σ where
  stage : Job.Stage τ β

namespace Job

variable {σ τ β : Type}

/-- The state after something has been done to what is shared. -/
def State.change (s : State σ τ β) (f : Shared σ → Shared σ) : State σ τ β :=
  { s with toShared := f s.toShared }

variable (job : Job σ τ β)

/-- The job has a result. -/
def finish (now : Nat) (result : Except CacheError β) (s : State σ τ β) : State σ τ β :=
  { s with
    gate := if job.keeps && result.isOk then s.gate else s.gate.drop job.ticket
    stage := .ended now result }

/-- The job does what it can from a point. -/
def advance (now : Nat) (point : τ) (s : State σ τ β) : State σ τ β :=
  match job.step now point s.store with
  | (.inl point, store) => { s with store := store, stage := .working point }
  | (.inr result, store) => job.finish now result { s with store := store }

/-- Goes on from the gate: works with units, waits without them, and fails if the gate turned the
job away. -/
def pass (now : Nat) (s : State σ τ β) : State σ τ β :=
  if s.gate.holds job.ticket then job.advance now job.start s
  else if s.gate.waits job.ticket then { s with stage := .waiting }
  else job.finish now (.error .gateClosed) s

/-- The job goes on as far as it can. -/
def poll (now : Nat) (s : State σ τ β) : State σ τ β :=
  match s.stage with
  | .idle => job.pass now { s with gate := s.gate.acquire job.ticket job.weight }
  | .waiting => job.pass now s
  | .working point => job.advance now point s
  | .ended _ _ => s

/-- The job is given up. One that has not begun has nothing to return. -/
def giveUp (now : Nat) (e : CacheError) (s : State σ τ β) : State σ τ β :=
  { s with
    gate := match s.stage with
      | .idle => s.gate
      | _ => s.gate.drop job.ticket
    stage := .ended now (.error e) }

variable (context : Context) (started : Nat)

/-- Looks at a job that began at `started`, unless it has ended. -/
def look (now : Nat) (s : State σ τ β) : State σ τ β :=
  match s.stage with
  | .ended _ _ => s
  | _ =>
    match context.verdict? started now with
    | some e => job.giveUp now e s
    | none => job.poll now s

variable (others : Others σ)

/-- A moment passes. -/
def moment (now : Nat) (s : State σ τ β) : State σ τ β :=
  (others.after now).foldl (fun s change => job.look context started now (s.change change))
    (job.look context started now (s.change (others.before now)))

/-- The job after a number of milliseconds, among others. -/
def run (x : Shared σ) : Nat → State σ τ β
  | 0 => ⟨x, .idle⟩
  | n + 1 => job.moment context started others (started + n) (run x n)

end Job

end QueryCache
