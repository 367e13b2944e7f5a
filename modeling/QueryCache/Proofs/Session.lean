import Mathlib
import QueryCache.Proofs.Plan.Units
import QueryCache.Session

/-!
# The gate of a session

Whatever is done in a session, the books of its gate are right, and the gate does not know the
tickets that are given out next. So what is proved of worlds of this kind holds at every moment of
every session.

## Main definitions

* `Session.Step`, `Session.Steps` : what can be done in a session.

## Main results

* `World.Sound.request` : a request at the gate.
* `Session.Steps.sound` : the worlds of a session are sound.
-/

namespace QueryCache

theorem Gate.idle_ofCapacity (capacity : Nat) : (Gate.ofCapacity capacity).Idle := ⟨rfl, rfl, rfl⟩

namespace World

variable {σ : Type} {asked : Nat → Nat} {w : World σ}

/-- Whoever gives up a ticket leaves the books right. -/
theorem Sound.drop (h : w.Sound asked) (ticket : Nat) :
    ({ w with gate := w.gate.drop ticket } : World σ).Sound asked where
  gate := h.gate.drop ticket
  fresh other hmem := h.fresh other (Gate.mem_tickets_drop.1 hmem).1
  one := h.one

theorem Sound.close (h : w.Sound asked) :
    ({ w with gate := w.gate.close } : World σ).Sound asked where
  gate := h.gate.close
  fresh ticket hmem := by
    refine h.fresh ticket (List.mem_append_left _ ?_)
    simpa [Gate.tickets, Gate.close] using hmem
  one := h.one

/-- A gate that nobody uses takes the place of the one before. -/
theorem Sound.exchange (h : w.Sound asked) {gate : Gate} (hidle : gate.Idle) :
    ({ w with gate := gate } : World σ).Sound asked where
  gate := hidle.sound asked
  fresh := by
    rw [hidle.tickets_eq_nil]
    exact nofun
  one := h.one

/-- **A request with the next ticket** leaves the books right, whatever its weight is. -/
theorem Sound.request (h : w.Sound asked) (weight : Nat) :
    ({ w with
        gate := w.gate.acquire w.nextTicket weight
        nextTicket := w.nextTicket + 1 } : World σ).Sound
      (Function.update asked w.nextTicket weight) where
  gate := by
    have hnew : w.nextTicket ∉ w.gate.tickets := fun hmem =>
      Nat.lt_irrefl _ (h.fresh w.nextTicket hmem)
    have hsame : ∀ ticket ∈ w.gate.tickets,
        Function.update asked w.nextTicket weight ticket = asked ticket := fun ticket hmem =>
      Function.update_of_ne (Nat.ne_of_lt (h.fresh ticket hmem)) weight asked
    have hacquire := (h.gate.congr hsame).acquire hnew
    rwa [Function.update_self] at hacquire
  fresh ticket hmem := by
    rcases h.gate.tickets_acquire w.nextTicket weight with hsame | hmore
    · rw [hsame] at hmem
      exact Nat.lt_succ_of_lt (h.fresh ticket hmem)
    · rw [hmore] at hmem
      rcases List.mem_append.1 hmem with hmem | hmem
      · exact Nat.lt_succ_of_lt (h.fresh ticket hmem)
      · rw [List.mem_singleton.1 hmem]
        exact Nat.lt_succ_self _
  one ticket hle := by
    have hle : w.nextTicket + 1 ≤ ticket := hle
    rw [Function.update_of_ne (by omega)]
    exact h.one ticket (by omega)

end World

namespace Session

variable {s s' : Session}

/-- The books of the gate of the session are right, and its next tickets are unknown. -/
def Sound (s : Session) : Prop := ∃ asked, s.world.Sound asked

/-- Something is done in a session: an operation that ends, a call on the store itself, or a
request at the gate. -/
inductive Step : Session → Session → Prop
  | run {ν α : Type} {s : Session} (context : Context) (primary : Query → Except Error (Option ν))
    (plan : Plan ν α) (ends : (s.run context primary plan).1.isSome = true) :
    Step s (s.run context primary plan).2
  | direct {s : Session} (c : Call) : Step s (s.direct c).2
  | stats {s : Session} : Step s s.stats.2
  | setBehind {s : Session} (key : String) (value : ByteArray) : Step s (s.setBehind key value)
  | hold {s : Session} (context : Context) (name : String) (weight : Nat) :
    Step s (s.hold context name weight).2
  | release {s : Session} (name : String) : Step s (s.release name).2
  | closeGate {s : Session} : Step s s.closeGate
  | newGate {s : Session} (capacity : Nat) : Step s (s.newGate capacity)
  | reopen {s : Session} : Step s s.reopen

/-- Several things are done, one after the other. -/
abbrev Steps : Session → Session → Prop := Relation.ReflTransGen Step

/-- A session begins with a gate that nobody uses. -/
theorem sound_start {config : Config} {ids : Nat → RecordId} {store : Store}
    (h : start? config ids store = .ok s) : s.Sound := by
  rw [start?] at h
  cases hvalid : config.validate with
  | error e =>
    rw [hvalid] at h
    cases h
  | ok u =>
    rw [hvalid] at h
    cases h
    exact ⟨_, Gate.Idle.sound_world (Gate.idle_ofCapacity _)⟩

theorem Sound.run {ν α : Type} (h : s.Sound) {context : Context}
    {primary : Query → Except Error (Option ν)} {plan : Plan ν α}
    (ends : (s.run context primary plan).1.isSome = true) :
    (s.run context primary plan).2.Sound := by
  obtain ⟨asked, hsound⟩ := h
  obtain ⟨r, hr⟩ := Option.isSome_iff_exists.1 ends
  exact ⟨asked, (Plan.run_keeps hsound (Prod.ext hr rfl)).sound⟩

theorem Sound.release (h : s.Sound) (name : String) : (s.release name).2.Sound := by
  obtain ⟨asked, hsound⟩ := h
  rw [Session.release]
  split
  · exact ⟨asked, hsound⟩
  next held _ =>
    by_cases hgate : held.gate = s.gates
    · simp only [if_pos hgate]
      exact ⟨asked, hsound.drop held.ticket⟩
    · simp only [if_neg hgate]
      exact ⟨asked, hsound⟩

theorem Sound.keep (h : s.Sound) (name : String) (ticket : Nat) : (s.keep name ticket).Sound :=
  h.release name

theorem Sound.hold (h : s.Sound) (context : Context) (name : String) (weight : Nat) :
    (s.hold context name weight).2.Sound := by
  obtain ⟨asked, hsound⟩ := h
  have hasked := hsound.request weight
  rw [Session.hold]
  split
  · exact ⟨asked, hsound⟩
  · simp only
    -- The weight is noted for the new ticket, whether it is granted, waits or is turned away.
    split
    · exact Sound.keep ⟨_, hasked⟩ name _
    · split
      · split
        · exact ⟨_, hasked⟩
        · exact ⟨_, (hasked.drop s.world.nextTicket).of_gate rfl rfl⟩
      · exact ⟨_, hasked⟩

/-- **What is done in a session** keeps its world sound. -/
theorem Step.sound (hstep : Step s s') (h : s.Sound) : s'.Sound := by
  cases hstep with
  | run context primary plan ends => exact h.run ends
  | hold context name weight => exact h.hold context name weight
  | release name => exact h.release name
  | direct | stats | setBehind =>
    obtain ⟨asked, hsound⟩ := h
    exact ⟨asked, hsound.of_gate rfl rfl⟩
  | closeGate =>
    obtain ⟨asked, hsound⟩ := h
    exact ⟨asked, hsound.close⟩
  | newGate capacity =>
    obtain ⟨asked, hsound⟩ := h
    exact ⟨asked, hsound.exchange (Gate.idle_ofCapacity capacity)⟩
  | reopen =>
    obtain ⟨asked, hsound⟩ := h
    have hexchanged := hsound.exchange (Gate.idle_ofCapacity s.config.maxInFlight)
    exact ⟨asked, hexchanged.of_gate rfl rfl⟩

/-- **At every moment of a session** its world is sound. -/
theorem Steps.sound {config : Config} {ids : Nat → RecordId} {store : Store}
    (hstart : start? config ids store = .ok s) (hsteps : Steps s s') : s'.Sound := by
  induction hsteps with
  | refl => exact sound_start hstart
  | tail _ hstep ih => exact hstep.sound ih

end Session

end QueryCache
