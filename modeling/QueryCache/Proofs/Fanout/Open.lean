import QueryCache.Proofs.Fanout.Limits
import QueryCache.Proofs.Fanout.Progress

/-!
# Runs at an open gate

A gate that is open knows every action that has asked it for a unit, so it turns none away. The
error of a run then comes from the context or from an action; if the context never stops the run and
no action fails, the run has results.

## Main results

* `World.fly_error_of_open` : where the error of a run at an open gate comes from.
* `World.Sound.fanOut_answered` : actions that nothing stops.
-/

namespace QueryCache

variable {σ β : Type} {asked : Nat → Nat}

/-- An open gate knows who has asked it. -/
theorem Gate.mem_tickets_acquire_self {g : Gate} (hopen : g.closed = false) (ticket weight : Nat) :
    ticket ∈ (g.acquire ticket weight).tickets := by
  rcases g.acquire_cases ticket weight with ⟨hclosed, -⟩ | ⟨-, -, hg⟩ | ⟨-, -, hg⟩
  · cases hopen.symm.trans hclosed
  · rw [hg]
    simp [tickets]
  · rw [hg]
    simp [tickets]

namespace Flight

variable {delay : Nat} {f : Flight σ β} {w w' : World σ} {flights : List (Flight σ β)}
  {e : CacheError}

theorem Polled.error_of_open (h : Polled delay f w (.error e) w') (hstands : f.Stands w.gate)
    (hopen : w.gate.closed = false) : ∃ s s', f.action s = (.error e, s') := by
  cases h with
  | fails stage unit act => exact ⟨_, _, act⟩
  | refused stage unknown =>
    rcases stage with hidle | hwaiting
    · rw [asking, hidle] at unknown
      exact (unknown (Gate.mem_tickets_acquire_self hopen _ _)).elim
    · rw [asking_of_ne (by simp [hwaiting])] at unknown
      exact (unknown (hstands.known.2 (by rw [hwaiting]; rfl))).elim

/-- At an open gate a look at all actions only fails with one of them. -/
theorem Booked.pollAll_error_of_open (h : Booked asked flights w.gate)
    (hopen : w.gate.closed = false) (hpoll : Flight.pollAll delay flights w = (.error e, w')) :
    ∃ action ∈ flights.map Flight.action, ∃ s s', action s = (.error e, s') := by
  induction flights generalizing w with
  | nil => cases hpoll
  | cons f rest ih =>
    obtain ⟨-, -, hone, hstands⟩ := booked_cons_iff.1 h
    rcases pollAll_cons_eq_error.1 hpoll with hfirst | ⟨f₁, w₁, hfirst, hrest⟩
    · exact ⟨f.action, List.mem_cons_self, (Polled.of_eq hfirst).error_of_open hstands hopen⟩
    · have hpolled := Polled.of_eq hfirst
      have hmoves := hpolled.moves hstands h.sound hone
      obtain ⟨action, hmem, hact⟩ :=
        ih (booked_cons_iff.1 (h.of_polled hpolled)).1 (hmoves.gate.closed.trans hopen) hrest
      exact ⟨action, List.mem_cons_of_mem _ hmem, hact⟩

end Flight

namespace World

variable {context : Context} {started delay fuel : Nat} {w w' : World σ}
  {flights : List (Flight σ β)} {e : CacheError}

/-- **The error of a run at an open gate** comes from the context or an action. -/
theorem fly_error_of_open (h : Flight.Booked asked flights w.gate) (hopen : w.gate.closed = false)
    (hfly : fly context started delay fuel flights w = (some (.error e), w')) :
    (∃ now, context.verdict? started now = some e) ∨
      ∃ action ∈ flights.map Flight.action, ∃ s s', action s = (.error e, s') := by
  induction fuel generalizing flights w with
  | zero => cases hfly
  | succ fuel ih =>
    rw [fly] at hfly
    split at hfly
    next e' hverdict =>
      cases hfly
      exact .inl ⟨w.now, hverdict⟩
    · split at hfly
      next e' w₁ hpoll =>
        cases hfly
        exact .inr (h.pollAll_error_of_open hopen hpoll)
      next flights₁ w₁ hpoll =>
        obtain ⟨hbooked, -, hmoves⟩ := h.pollAll hpoll
        obtain ⟨log, hall⟩ := Flight.pollAll_ok hpoll
        split at hfly
        · cases hfly
        · split at hfly
          · cases hfly
          next moment _ =>
            rw [← hall.action]
            exact ih (w := { w₁ with now := moment }) hbooked (hmoves.gate.closed.trans hopen) hfly

variable [CacheStore σ]

/-- **Actions that nothing stops** have results: the gate is open and has a unit to spare, the
context has no limits, and no action fails. -/
theorem Sound.fanOut_answered (h : w.Sound asked) (hopen : w.gate.closed = false)
    (hfree : 0 < w.gate.free) (hlive : ∀ now, context.verdict? w.now now = none)
    {actions : List (Action σ β)} (hact : ∀ action ∈ actions, ∀ s, ∃ result s',
      action s = (.ok result, s')) : ∃ results w', w.fanOut context actions =
        (some (.ok results), w') := by
  obtain ⟨r, hr⟩ := Option.isSome_iff_exists.1 (h.fanOut_isSome (.inr (.inr hfree)) actions)
  have hfan : w.fanOut context actions = (some r, _) := Prod.ext hr rfl
  cases r with
  | ok results => exact ⟨results, _, hfan⟩
  | error e =>
    rcases fly_error_of_open (w := { w with nextTicket := w.nextTicket + actions.length })
      (h.booked actions) hopen hfan with ⟨now, hverdict⟩ | ⟨action, hmem, s, s', herror⟩
    · cases (hlive now).symm.trans hverdict
    · rw [action_flightsOf] at hmem
      obtain ⟨result, s'', hok⟩ := hact action hmem s
      cases hok.symm.trans herror

/-- A call that nothing stops is answered. -/
theorem Sound.guarded_answered (h : w.Sound asked) (hopen : w.gate.closed = false)
    (hfree : 0 < w.gate.free) (hlive : ∀ now, context.verdict? w.now now = none) {c : Call}
    (hcall : ∀ s : σ, ∃ reply s', CacheStore.call c s = (.ok reply, s')) :
    ∃ reply w', w.guarded context c = (some (.ok reply), w') := by
  obtain ⟨results, w', hfan⟩ := h.fanOut_answered hopen hfree hlive
    (List.forall_mem_singleton.2 hcall)
  obtain ⟨-, -, -, hlength, -⟩ := fanOut_ok hfan
  cases results with
  | nil => cases hlength
  | cons reply replies => exact ⟨reply, w', by rw [World.guarded, hfan]⟩

/-- Calls that run together and that nothing stops are answered. -/
theorem Sound.guardedAll_answered (h : w.Sound asked) (hopen : w.gate.closed = false)
    (hfree : 0 < w.gate.free) (hlive : ∀ now, context.verdict? w.now now = none) {calls : List Call}
    (hcalls : ∀ c ∈ calls, ∀ s : σ, ∃ reply s', CacheStore.call c s = (.ok reply, s')) :
    ∃ w', w.guardedAll context calls = (some (.ok ()), w') := by
  cases calls with
  | nil => exact ⟨w, rfl⟩
  | cons c rest =>
    have hact : ∀ action ∈ (c :: rest).map acting, ∀ s : σ, ∃ result s',
        action s = (.ok result, s') := by
      refine List.forall_mem_map.2 fun c hc s => ?_
      obtain ⟨reply, s', hok⟩ := hcalls c hc s
      exact ⟨(), s', by rw [acting, hok]⟩
    obtain ⟨results, w', hfan⟩ := h.fanOut_answered hopen hfree hlive hact
    exact ⟨w', by rw [guardedAll_cons, hfan]⟩

end World

end QueryCache
