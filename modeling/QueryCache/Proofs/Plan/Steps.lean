import QueryCache.Proofs.Fanout.Halt
import QueryCache.Proofs.Plan.Run

/-!
# The steps of a plan

What holds of all steps that a plan may take, whatever the store answers, holds of those that it
takes in a run. A plan that fetches nothing leaves the count of fetches as it is.

## Main definitions

* `Plan.AllSteps` : all calls and fetches that a plan may make with a primary store are of some
  kind.

## Main results

* `Plan.AllSteps.bind`, `Plan.AllSteps.recover` : plans that are put together.
* `Plan.AllSteps.fetched_eq` : plans that fetch nothing.
-/

namespace QueryCache

namespace World

variable {σ : Type} [CacheStore σ] {context : Context} {w w' : World σ}

theorem sameCounts_of_guarded {c : Call} {r : Option (Except CacheError c.Reply)}
    (h : w.guarded context c = (r, w')) : w.SameCounts w' := by
  rcases r with - | e | reply
  · exact (guarded_halts (o := none) h rfl).2
  · exact (guarded_halts (o := some e) h rfl).2
  · exact (guarded_ok h).2

theorem sameCounts_of_guardedAll {calls : List Call} {r : Option (Except CacheError Unit)}
    (h : w.guardedAll context calls = (r, w')) : w.SameCounts w' := by
  have stops {o : Option CacheError} (hr : r = o.map .error) : w.SameCounts w' := by
    obtain ⟨-, -, -, -, -, -, -, hcounts⟩ := guardedAll_halts h hr
    exact hcounts
  rcases r with - | e | u
  · exact stops (o := none) rfl
  · exact stops (o := some e) rfl
  · exact (guardedAll_ok h).2

end World

namespace Plan

variable {ν α β σ : Type} {p : Plan ν α} {primary : Query → Except Error (Option ν)}
  {P : Call → Prop} {F : Query → Prop}

/-- All calls that the plan may make, whatever the store answers, and all fetches from the primary
store are of some kind. -/
def AllSteps (primary : Query → Except Error (Option ν)) (P : Call → Prop) (F : Query → Prop) :
    Plan ν α → Prop
  | done _ => True
  | call c next => P c ∧ ∀ reply, (next reply).AllSteps primary P F
  | batch calls next => (∀ c ∈ calls, P c) ∧ ∀ reply, (next reply).AllSteps primary P F
  | mint next => ∀ id, (next id).AllSteps primary P F
  | fetch query next => F query ∧ (next (primary query)).AllSteps primary P F

theorem allSteps_lift {ε : Type} (wrap : ε → Error) (x : Except ε α) :
    (lift wrap x : Plan ν α).AllSteps primary P F := by
  cases x <;> trivial

theorem allSteps_call {c : Call} (h : P c) :
    (call c (lift .cache) : Plan ν c.Reply).AllSteps primary P F :=
  ⟨h, fun reply => allSteps_lift _ reply⟩

/-- **Plans of such steps** can be put together. -/
theorem AllSteps.recover {f : Except Error α → Plan ν β} (h : p.AllSteps primary P F)
    (hf : ∀ result, (f result).AllSteps primary P F) : (p.recover f).AllSteps primary P F := by
  induction p with
  | done result => exact hf result
  | call c next ih => exact ⟨h.1, fun reply => ih reply (h.2 reply)⟩
  | batch calls next ih => exact ⟨h.1, fun reply => ih reply (h.2 reply)⟩
  | mint next ih => exact fun id => ih id (h id)
  | fetch query next ih => exact ⟨h.1, ih _ h.2⟩

theorem AllSteps.bind {f : α → Plan ν β} (h : p.AllSteps primary P F)
    (hf : ∀ a, (f a).AllSteps primary P F) : (p >>= f).AllSteps primary P F := by
  refine h.recover fun result => ?_
  cases result with
  | ok a => exact hf a
  | error e => trivial

/-- A plan that goes on with the result of another one. -/
theorem run_bind [CacheStore σ] {env : Environment ν} (p : Plan ν α) (f : α → Plan ν β)
    (w : World σ) : (p >>= f).run env w = match p.run env w with
      | (some (.ok a), w₁) => (f a).run env w₁
      | (some (.error e), w₁) => (some (.error e), w₁)
      | (none, w₁) => (none, w₁) := by
  have hrecover : (p >>= f).run env w = _ := run_recover p _
  rw [hrecover]
  rcases p.run env w with ⟨- | e | a, w₁⟩ <;> rfl

/-- **A plan that fetches nothing** leaves the count of fetches as it is. -/
theorem AllSteps.fetched_eq [CacheStore σ] {env : Environment ν} {w w' : World σ}
    {o : Option (Except Error α)} (h : p.AllSteps env.primary P fun _ => False)
    (hrun : p.run env w = (o, w')) : w'.fetched = w.fetched := by
  induction p generalizing w with
  | done result =>
    cases hrun
    rfl
  | call c next ih =>
    rw [run] at hrun
    split at hrun
    next reply w₁ hcall =>
      exact (ih reply (h.2 reply) hrun).trans (World.sameCounts_of_guarded hcall).fetched
    next w₁ hcall =>
      cases hrun
      exact (World.sameCounts_of_guarded hcall).fetched
  | batch calls next ih =>
    rw [run] at hrun
    split at hrun
    next reply w₁ hcalls =>
      exact (ih reply (h.2 reply) hrun).trans (World.sameCounts_of_guardedAll hcalls).fetched
    next w₁ hcalls =>
      cases hrun
      exact (World.sameCounts_of_guardedAll hcalls).fetched
  | mint next ih =>
    rw [run] at hrun
    exact ih (w := { w with minted := w.minted + 1 }) _ (h _) hrun
  | fetch query next ih => exact h.1.elim

end Plan

end QueryCache
