import QueryCache.Plan
import QueryCache.Proofs.Fanout.Progress

/-!
# The units that a plan needs

Each call of a plan asks the gate for one unit and gives it back. So a plan leaves the gate to
everybody as it was, has at no moment more calls under way than the gate has units, and ends unless
the gate keeps it waiting for ever.

## Main definitions

* `World.Occupies` : how many calls are under way at a moment of a run.
* `Plan.Employs` : how many calls are under way at a moment of a plan.

## Main results

* `Plan.run_keeps` : what a plan leaves of the gate.
* `Plan.run_isSome` : plans that end.
* `Plan.Employs.le_capacity` : the calls under way are never more than the units.
-/

namespace QueryCache

variable {ν α σ : Type} {asked : Nat → Nat} {n : Nat}

theorem Context.limited_orTimeout (c : Context) (now : Nat) (timeout : Option Nat) :
    (c.orTimeout now timeout).limited = (c.limited || timeout.isSome) := by
  rcases c with ⟨deadline, cancelAt⟩
  cases deadline <;> cases timeout <;> simp [Context.orTimeout, Context.withTimeout,
    Context.withDeadline, Context.limited]

theorem Gate.Idle.ready {g : Gate} (h : g.Idle) (hcapacity : 0 < g.capacity) : g.Ready :=
  .inr (h.free.symm ▸ hcapacity)

section Worlds

variable [CacheStore σ] {w w' : World σ}

/-- At some moment while actions run together, a number of them is under way. -/
def World.Occupies {β : Type} (w : World σ) (context : Context)
    (actions : List (Action σ β)) (n : Nat) : Prop :=
  ∃ flights w', World.Passes context w.now (CacheStore.delay w.store) (w.flightsOf actions)
    { w with nextTicket := w.nextTicket + actions.length } flights w' ∧
      n = Flight.inFlight flights w'.gate

theorem World.Occupies.le_capacity {β : Type} {context : Context} {actions : List (Action σ β)}
    (h : w.Occupies context actions n) (hsound : w.Sound asked) : n ≤ w.gate.capacity := by
  obtain ⟨flights, w', hpasses, rfl⟩ := h
  exact hpasses.inFlight_le (hsound.booked actions)

end Worlds

namespace Plan

variable [CacheStore σ] {env : Environment ν} {p : Plan ν α} {w w' : World σ}

/-- The context of each call ends at some moment. -/
def Environment.limited (env : Environment ν) : Bool :=
  env.context.limited || env.timeout.isSome

theorem Environment.limited_contextAt (env : Environment ν) (now : Nat) :
    (env.contextAt now).limited = env.limited :=
  Context.limited_orTimeout _ _ _

/-- **A plan that ends** leaves the gate to everybody as it was. -/
theorem run_keeps {r : Except Error α} (h : w.Sound asked) (hrun : p.run env w = (some r, w')) :
    w.Keeps asked w' := by
  induction p generalizing w with
  | done result =>
    cases hrun
    exact h.keeps
  | call c next ih =>
    rw [run] at hrun
    split at hrun
    next reply w₁ hcall =>
      have hkeeps := h.guarded hcall
      exact hkeeps.trans (ih reply hkeeps.sound hrun)
    next => cases hrun
  | batch calls next ih =>
    rw [run] at hrun
    split at hrun
    next reply w₁ hcalls =>
      have hkeeps := h.guardedAll hcalls
      exact hkeeps.trans (ih reply hkeeps.sound hrun)
    next => cases hrun
  | mint next ih =>
    have hkeeps := ih (w := { w with minted := w.minted + 1 }) _ (h.of_gate rfl rfl) hrun
    exact ⟨hkeeps.sound, hkeeps.gate⟩
  | fetch query next ih =>
    have hkeeps := ih (w := { w with fetched := w.fetched + 1 }) _ (h.of_gate rfl rfl) hrun
    exact ⟨hkeeps.sound, hkeeps.gate⟩

/-- **A plan ends** if its calls have limits, or the gate has a unit for them or is closed. -/
theorem run_isSome (h : w.Sound asked) (hready : env.limited = true ∨ w.gate.Ready) :
    (p.run env w).1.isSome = true := by
  induction p generalizing w with
  | done result => rfl
  | call c next ih =>
    have hlimited : (env.contextAt w.now).limited = true ∨ w.gate.Ready := by
      rwa [env.limited_contextAt]
    have hsome := h.guarded_isSome hlimited c
    rw [run]
    split
    next reply w₁ hcall =>
      have hkeeps := h.guarded hcall
      exact ih reply hkeeps.sound (hready.imp_right (hkeeps.gate.ready h.gate))
    next hnone => simp [hnone] at hsome
  | batch calls next ih =>
    have hlimited : (env.contextAt w.now).limited = true ∨ w.gate.Ready := by
      rwa [env.limited_contextAt]
    have hsome := h.guardedAll_isSome hlimited calls
    rw [run]
    split
    next reply w₁ hcalls =>
      have hkeeps := h.guardedAll hcalls
      exact ih reply hkeeps.sound (hready.imp_right (hkeeps.gate.ready h.gate))
    next hnone => simp [hnone] at hsome
  | mint next ih => exact ih _ (h.of_gate rfl rfl) hready
  | fetch query next ih => exact ih _ (h.of_gate rfl rfl) hready

/-- At some moment of a plan, a number of its calls is under way. -/
inductive Employs (env : Environment ν) : Plan ν α → World σ → Nat → Prop
  | call {c next w n} (moment : w.Occupies (env.contextAt w.now) [CacheStore.call c] n) :
    Employs env (.call c next) w n
  | answered {c next w reply w' n} (run : w.guarded (env.contextAt w.now) c = (some reply, w'))
    (rest : Employs env (next reply) w' n) : Employs env (.call c next) w n
  | batch {calls next w n}
    (moment : w.Occupies (env.contextAt w.now) (calls.map World.acting) n) :
    Employs env (.batch calls next) w n
  | allAnswered {calls next w reply w' n}
    (run : w.guardedAll (env.contextAt w.now) calls = (some reply, w'))
    (rest : Employs env (next reply) w' n) : Employs env (.batch calls next) w n
  | minted {next w n}
    (rest : Employs env (next (env.ids w.minted)) { w with minted := w.minted + 1 } n) :
    Employs env (.mint next) w n
  | fetched {query next w n}
    (rest : Employs env (next (env.primary query)) { w with fetched := w.fetched + 1 } n) :
    Employs env (.fetch query next) w n

/-- **At every moment of a plan** the calls under way are not more than the units of the gate. -/
theorem Employs.le_capacity (h : p.Employs env w n) (hsound : w.Sound asked) :
    n ≤ w.gate.capacity := by
  induction h with
  | call moment => exact moment.le_capacity hsound
  | answered run rest ih =>
    have hkeeps := hsound.guarded run
    rw [← hkeeps.gate.capacity]
    exact ih hkeeps.sound
  | batch moment => exact moment.le_capacity hsound
  | allAnswered run rest ih =>
    have hkeeps := hsound.guardedAll run
    rw [← hkeeps.gate.capacity]
    exact ih hkeeps.sound
  | minted rest ih => exact ih (hsound.of_gate rfl rfl)
  | fetched rest ih => exact ih (hsound.of_gate rfl rfl)

end Plan

end QueryCache
