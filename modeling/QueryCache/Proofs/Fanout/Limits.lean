import QueryCache.Proofs.Fanout.Units

/-!
# Why a run ends early

A run of actions fails because the context stops it, the gate turns an action away, or an action
fails. If the context stops it at once, nothing has happened: no action has been made, and the gate
has not been asked.

## Main results

* `World.fly_error`, `World.guarded_error` : where the error of a run comes from.
* `World.Sound.fanOut_dead`, `World.Sound.guarded_dead`, `World.Sound.guardedAll_dead` : runs that
  the context stops at once.
-/

namespace QueryCache

variable {σ β : Type} {asked : Nat → Nat}

theorem Context.cancelAt_orTimeout (c : Context) (now : Nat) (timeout : Option Nat) :
    (c.orTimeout now timeout).cancelAt = c.cancelAt := by
  rcases c with ⟨deadline, cancelAt⟩
  cases deadline <;> cases timeout <;> rfl

/-- The context stops work because it was cancelled, or because its time is up. -/
theorem Context.verdict?_eq_some {c : Context} {started now : Nat} {e : CacheError}
    (h : c.verdict? started now = some e) :
    e = .cancelled ∧ c.cancelAt.isSome = true ∨ e = .timeout (now - started) := by
  rw [verdict?] at h
  split at h
  next hreached =>
    cases h
    refine .inl ⟨rfl, ?_⟩
    cases hcancel : c.cancelAt with
    | none => simp [hcancel, reached] at hreached
    | some t => rfl
  · split at h
    · cases h
      exact .inr rfl
    · cases h

namespace Flight

variable {delay : Nat} {f : Flight σ β} {w w' : World σ} {flights : List (Flight σ β)}
  {e : CacheError}

theorem Polled.error (h : Polled delay f w (.error e) w') :
    e = .gateClosed ∨ ∃ s s', f.action s = (.error e, s') := by
  cases h with
  | fails stage unit act => exact .inr ⟨_, _, act⟩
  | refused => exact .inl rfl

theorem pollAll_error_origin (h : pollAll delay flights w = (.error e, w')) :
    e = .gateClosed ∨ ∃ action ∈ flights.map Flight.action, ∃ s s', action s = (.error e, s') := by
  induction flights generalizing w with
  | nil => cases h
  | cons f rest ih =>
    rcases pollAll_cons_eq_error.1 h with hfirst | ⟨f₁, w₁, -, hrest⟩
    · refine (Polled.of_eq hfirst).error.imp_right fun hact => ?_
      exact ⟨f.action, List.mem_cons_self, hact⟩
    · refine (ih hrest).imp_right fun ⟨action, hmem, hact⟩ => ?_
      exact ⟨action, List.mem_cons_of_mem _ hmem, hact⟩

end Flight

namespace World

variable {context : Context} {started delay fuel : Nat} {w w' : World σ}
  {flights : List (Flight σ β)} {e : CacheError}

/-- **The error of a run** comes from the context, the gate or an action. -/
theorem fly_error (h : fly context started delay fuel flights w = (some (.error e), w')) :
    (∃ now, context.verdict? started now = some e) ∨ e = .gateClosed ∨
      ∃ action ∈ flights.map Flight.action, ∃ s s', action s = (.error e, s') := by
  induction fuel generalizing flights w with
  | zero => cases h
  | succ fuel ih =>
    rw [fly] at h
    split at h
    next e' hverdict =>
      cases h
      exact .inl ⟨w.now, hverdict⟩
    · split at h
      next e' w₁ hpoll =>
        cases h
        exact .inr (Flight.pollAll_error_origin hpoll)
      next flights₁ w₁ hpoll =>
        obtain ⟨log, hall⟩ := Flight.pollAll_ok hpoll
        split at h
        · cases h
        · split at h
          · cases h
          · rw [← hall.action]
            exact ih h

/-- Actions that have not begun have nothing to give up. -/
theorem Sound.abandon (h : w.Sound asked) {n : Nat} (actions : List (Action σ β)) :
    ({ w with nextTicket := w.nextTicket + n } : World σ).abandon (w.flightsOf actions) =
      { w with nextTicket := w.nextTicket + n } := by
  have hunknown := h.notMem_flightsOf actions
  have hsame (flights : List (Flight σ β))
      (hnone : ∀ ticket ∈ flights.map Flight.ticket, ticket ∉ w.gate.tickets) :
      flights.foldl (fun g f => g.drop f.ticket) w.gate = w.gate := by
    induction flights with
    | nil => rfl
    | cons f rest ih =>
      obtain ⟨hf, hrest⟩ := List.forall_mem_cons.1 hnone
      rw [List.foldl_cons, h.gate.drop_of_notMem hf]
      exact ih hrest
  rw [World.abandon, hsame _ hunknown]

variable [CacheStore σ]

/-- **The error of a call** comes from the context, the gate or the store. -/
theorem guarded_error {c : Call} (h : w.guarded context c = (some (.error e), w')) :
    (∃ now, context.verdict? w.now now = some e) ∨ e = .gateClosed ∨
      ∃ s s' : σ, CacheStore.call c s = (.error e, s') := by
  rw [World.guarded] at h
  split at h
  · cases h
  next e' w₁ hfan =>
    cases h
    rcases fly_error hfan with hverdict | hclosed | ⟨action, hmem, hact⟩
    · exact .inl hverdict
    · exact .inr (.inl hclosed)
    · rw [action_flightsOf, List.mem_singleton] at hmem
      rw [hmem] at hact
      exact .inr (.inr hact)
  · cases h

/-- **Actions whose context stops them at once** are never made, and the gate is not asked. -/
theorem Sound.fanOut_dead (h : w.Sound asked) (hdead : context.verdict? w.now w.now = some e)
    (actions : List (Action σ β)) : w.fanOut context actions =
      (some (.error e), { w with nextTicket := w.nextTicket + actions.length }) := by
  rw [World.fanOut, fly]
  simp only [hdead]
  rw [h.abandon actions]

theorem Sound.guarded_dead (h : w.Sound asked) (hdead : context.verdict? w.now w.now = some e)
    (c : Call) :
    w.guarded context c = (some (.error e), { w with nextTicket := w.nextTicket + 1 }) := by
  rw [World.guarded, h.fanOut_dead hdead]
  rfl

theorem Sound.guardedAll_dead (h : w.Sound asked) (hdead : context.verdict? w.now w.now = some e)
    (c : Call) (rest : List Call) : w.guardedAll context (c :: rest) =
      (some (.error e), { w with nextTicket := w.nextTicket + (rest.length + 1) }) := by
  rw [guardedAll_cons, h.fanOut_dead hdead, List.length_map]
  rfl

end World

end QueryCache
