import QueryCache.Acquisitions
import QueryCache.Proofs.Gate.Units

/-!
# Requests at a gate

Whatever the parties at a gate do, and in whatever order their waits are given up, the books of the
gate are right, and the gate knows just the requests that have not ended. So what a party sees of
its request is what the books say of it. A gate that is closed knows no other requests than those
that had been granted by then, and it knows them until they are released.

## Main definitions

* `Acquisitions.Step` : what can happen at a gate.
* `Acquisitions.Sound` : the books of the gate agree with how the requests stand.
* `Acquisitions.liveUnits` : the units of the permits that are held.
* `Acquisitions.Shut` : what is left of the requests at a gate since it was closed.

## Main results

* `Acquisitions.Step.sound`, `Acquisitions.Steps.sound` : the books stay right.
* `Acquisitions.Sound.liveUnits_eq` : the units that the parties hold are those in the books.
* `Acquisitions.Shut.step`, `Acquisitions.Steps.shut` : nothing is granted after closing.
-/

namespace QueryCache.Acquisitions

variable {asked : Nat → Nat} {s s' : Acquisitions} {a b : Acquisition}

/-- Something happens at a gate. The requests are numbered, and `asked` is the weight of each. -/
inductive Step (asked : Nat → Nat) (s : Acquisitions) : Acquisitions → Prop
  | acquire (name : String) (timeout : Option Nat) (token : Option String) :
    Step asked s (s.acquire name (asked s.requests.length) timeout token)
  | release (name : String) : Step asked s (s.release name).2
  | close : Step asked s s.close
  | cancel (token : String) : Step asked s (s.cancel token)
  | advance {moment : Nat} (later : s.now ≤ moment) : Step asked s (s.advance moment)
  | work (duration : Nat) (timeout : Option Nat) (token : Option String) :
    Step asked s (s.work duration timeout token).2

/-- Things happen at a gate one after the other. -/
abbrev Steps (asked : Nat → Nat) : Acquisitions → Acquisitions → Prop :=
  Relation.ReflTransGen (Step asked)

/-! ### The books -/

/-- The books of the gate are right, and the gate knows just requests that have not ended. -/
structure Sound (asked : Nat → Nat) (s : Acquisitions) : Prop where
  gate : s.gate.Sound asked
  numbered : s.requests.map Acquisition.ticket = List.range s.requests.length
  known : ∀ ticket ∈ s.gate.tickets, ∃ a ∈ s.requests, a.ticket = ticket ∧ a.ended = none
  ended : ∀ a ∈ s.requests, a.ended ≠ some .held ∧ a.ended ≠ some .waiting

namespace Sound

theorem start (asked : Nat → Nat) (capacity : Nat) : (ofCapacity capacity).Sound asked :=
  ⟨Gate.sound_ofCapacity asked capacity, rfl, nofun, nofun⟩

theorem ticket_inj (h : s.Sound asked) (ha : a ∈ s.requests) (hb : b ∈ s.requests)
    (heq : a.ticket = b.ticket) : a = b := by
  refine List.inj_on_of_nodup_map ?_ ha hb heq
  rw [h.numbered]
  exact List.nodup_range

theorem ticket_lt (h : s.Sound asked) (ha : a ∈ s.requests) : a.ticket < s.requests.length := by
  rw [← List.mem_range, ← h.numbered]
  exact List.mem_map_of_mem ha

/-- What the gate knows of a request, it knows because the request has not ended. -/
theorem ended_eq_none (h : s.Sound asked) (ha : a ∈ s.requests)
    (hknown : a.ticket ∈ s.gate.tickets) : a.ended = none := by
  obtain ⟨b, hb, hticket, hended⟩ := h.known _ hknown
  rwa [← h.ticket_inj hb ha hticket]

/-- **A request stands as granted** exactly if the gate says so. -/
theorem standing_eq_held_iff (h : s.Sound asked) (ha : a ∈ s.requests) :
    s.standing a = .held ↔ s.gate.holds a.ticket = true := by
  rw [standing]
  constructor
  · intro hheld
    split at hheld
    next hended => exact absurd (hended.trans (congrArg some hheld)) (h.ended a ha).1
    next =>
      split at hheld
      · assumption
      · split at hheld <;> cases hheld
  · intro hholds
    rw [h.ended_eq_none ha (Gate.mem_tickets_iff.2 (.inl hholds))]
    exact if_pos hholds

/-- **A request stands as waiting** exactly if the gate says so. -/
theorem standing_eq_waiting_iff (h : s.Sound asked) (ha : a ∈ s.requests) :
    s.standing a = .waiting ↔ s.gate.waits a.ticket = true := by
  rw [standing]
  constructor
  · intro hwaiting
    split at hwaiting
    next hended => exact absurd (hended.trans (congrArg some hwaiting)) (h.ended a ha).2
    next =>
      split at hwaiting
      · cases hwaiting
      · split at hwaiting
        · assumption
        · cases hwaiting
  · intro hwaits
    have hnot : ¬ s.gate.holds a.ticket = true := by
      intro hholds
      exact List.disjoint_of_nodup_append h.gate.distinct (Gate.holds_iff.1 hholds)
        (Gate.waits_iff.1 hwaits)
    rw [h.ended_eq_none ha (Gate.mem_tickets_iff.2 (.inr hwaits))]
    simp [hnot, hwaits]

/-- Nobody stands as waiting exactly if the queue is empty. -/
theorem queue_eq_nil_iff (h : s.Sound asked) :
    s.gate.queue = [] ↔ ∀ a ∈ s.requests, s.standing a ≠ .waiting := by
  constructor
  · intro hqueue a ha hwaiting
    have hwaits := Gate.waits_iff.1 ((h.standing_eq_waiting_iff ha).1 hwaiting)
    rw [hqueue] at hwaits
    cases hwaits
  · intro hnone
    by_contra hne
    obtain ⟨w, rest, hqueue⟩ := List.exists_cons_of_ne_nil hne
    have hwaits : s.gate.waits w.ticket = true := by
      rw [Gate.waits_iff, hqueue]
      exact List.mem_cons_self
    obtain ⟨a, ha, hticket, -⟩ := h.known _ (Gate.mem_tickets_iff.2 (.inr hwaits))
    rw [← hticket] at hwaits
    exact hnone a ha ((h.standing_eq_waiting_iff ha).2 hwaits)

end Sound

/-! ### Steps -/

/-- A request that its context stops now has ended; others stand as before. -/
def settled (s : Acquisitions) (a : Acquisition) : Acquisition :=
  match s.verdict? a with
  | some cause => { a with ended := some (.failed cause) }
  | none => a

theorem ticket_settled (s : Acquisitions) (a : Acquisition) : (s.settled a).ticket = a.ticket := by
  rw [settled]
  split <;> rfl

theorem settled_of_none (h : s.verdict? a = none) : s.settled a = a := by
  rw [settled, h]

theorem requests_settle (s : Acquisitions) : s.settle.requests = s.requests.map s.settled := rfl

theorem Sound.settle (h : s.Sound asked) : s.settle.Sound asked := by
  obtain ⟨hgate, htickets⟩ := h.gate.foldl_drop Acquisition.ticket
    (s.requests.filter fun a => (s.verdict? a).isSome)
  refine ⟨hgate, ?_, ?_, ?_⟩
  · have hsame : Acquisition.ticket ∘ s.settled = Acquisition.ticket := funext s.ticket_settled
    rw [requests_settle, List.map_map, hsame, List.length_map]
    exact h.numbered
  · intro ticket hticket
    obtain ⟨hbefore, hgoesOn⟩ := (htickets ticket).1 hticket
    obtain ⟨a, ha, rfl, hended⟩ := h.known ticket hbefore
    have hnone : s.verdict? a = none := by
      by_contra hsome
      refine hgoesOn (List.mem_map_of_mem (List.mem_filter.2 ⟨ha, ?_⟩))
      exact Option.isSome_iff_ne_none.2 hsome
    refine ⟨a, ?_, rfl, hended⟩
    rw [requests_settle]
    exact List.mem_map.2 ⟨a, ha, settled_of_none hnone⟩
  · rw [requests_settle]
    intro a ha
    obtain ⟨b, hb, rfl⟩ := List.mem_map.1 ha
    rw [settled]
    split
    · exact ⟨nofun, nofun⟩
    · exact h.ended b hb

theorem Sound.jump (h : s.Sound asked) (moment : Nat) : (s.jump moment).Sound asked := by
  have hlater : ({ s with now := moment } : Acquisitions).Sound asked :=
    ⟨h.gate, h.numbered, h.known, h.ended⟩
  exact hlater.settle

theorem Sound.foldl_jump (h : s.Sound asked) (moments : List Nat) :
    (moments.foldl Acquisitions.jump s).Sound asked := by
  induction moments generalizing s with
  | nil => exact h
  | cons moment rest ih => exact ih (h.jump moment)

theorem Sound.advance (h : s.Sound asked) (moment : Nat) : (s.advance moment).Sound asked :=
  (h.foldl_jump _).jump moment

theorem Sound.work (h : s.Sound asked) (duration : Nat) (timeout : Option Nat)
    (token : Option String) : (s.work duration timeout token).2.Sound asked := by
  simp only [Acquisitions.work]
  split
  · exact h
  · split
    · exact h.advance _
    · exact h.advance _
  · exact h.advance _

/-- A new request, whatever has become of it. -/
theorem Sound.concat {gate : Gate} {ended : Option Standing} (h : s.Sound asked)
    (name : String) (deadline : Option Nat) (token : Option String) (hgate : gate.Sound asked)
    (htickets : ∀ ticket ∈ gate.tickets, ticket ∈ s.gate.tickets ∨
      ticket = s.requests.length ∧ ended = none)
    (hended : ended ≠ some .held ∧ ended ≠ some .waiting) :
    Sound asked { s with
      gate := gate
      requests := s.requests ++ [⟨name, s.requests.length, s.now, deadline, token, ended⟩] } where
  gate := hgate
  numbered := by
    simp only [List.map_append, List.map_cons, List.map_nil, h.numbered, List.length_append,
      List.length_cons, List.length_nil, Nat.zero_add, List.range_succ]
  known := by
    intro ticket hticket
    rcases htickets ticket hticket with hold | ⟨rfl, hnone⟩
    · obtain ⟨a, ha, hsame⟩ := h.known ticket hold
      exact ⟨a, List.mem_append_left _ ha, hsame⟩
    · exact ⟨_, List.mem_append_right _ (List.mem_singleton_self _), rfl, hnone⟩
  ended := by
    intro a ha
    rcases List.mem_append.1 ha with ha | ha
    · exact h.ended a ha
    · rw [List.mem_singleton.1 ha]
      exact hended

/-- The next number is not known to the gate. -/
theorem Sound.length_notMem (h : s.Sound asked) : s.requests.length ∉ s.gate.tickets := by
  intro hmem
  obtain ⟨a, ha, hticket, -⟩ := h.known _ hmem
  have hlt := h.ticket_lt ha
  omega

theorem Sound.acquire (h : s.Sound asked) (name : String) (timeout : Option Nat)
    (token : Option String) :
    (s.acquire name (asked s.requests.length) timeout token).Sound asked := by
  rw [Acquisitions.acquire]
  split
  · exact h.concat name _ token h.gate (fun _ hticket => .inl hticket) ⟨nofun, nofun⟩
  · refine h.concat name _ token (h.gate.acquire h.length_notMem) (fun ticket hticket => ?_)
      ⟨nofun, nofun⟩
    rcases h.gate.tickets_acquire s.requests.length (asked s.requests.length) with hsame | hmore
    · rw [hsame] at hticket
      exact .inl hticket
    · rw [hmore] at hticket
      exact (List.mem_append.1 hticket).imp_right fun hnew => ⟨List.mem_singleton.1 hnew, rfl⟩

/-- A request that is released has ended; others stand as before. -/
def released (ticket : Nat) (a : Acquisition) : Acquisition :=
  if a.ticket = ticket then { a with ended := some .gone } else a

theorem ticket_released (ticket : Nat) (a : Acquisition) :
    (released ticket a).ticket = a.ticket := by
  rw [released]
  split <;> rfl

/-- Releasing a name does nothing, or ends the latest request of this name. -/
theorem release_cases (s : Acquisitions) (name : String) :
    (s.requests.reverse.find? (fun a => a.name == name) = none ∧ (s.release name).2 = s) ∨
      ∃ a ∈ s.requests, s.requests.reverse.find? (fun a => a.name == name) = some a ∧
        (s.release name).2 = { s with
          gate := s.gate.drop a.ticket
          requests := s.requests.map (released a.ticket) } := by
  rw [release]
  split
  next hnone => exact .inl ⟨hnone, rfl⟩
  next a hsome =>
    exact .inr ⟨a, List.mem_reverse.1 (List.mem_of_find?_eq_some hsome), hsome, rfl⟩

theorem Sound.release (h : s.Sound asked) (name : String) : (s.release name).2.Sound asked := by
  rcases s.release_cases name with ⟨-, hsame⟩ | ⟨a, ha, -, hrelease⟩
  · rw [hsame]
    exact h
  rw [hrelease]
  refine ⟨h.gate.drop a.ticket, ?_, ?_, ?_⟩
  · have hsame : Acquisition.ticket ∘ released a.ticket = Acquisition.ticket :=
      funext (ticket_released a.ticket)
    rw [List.map_map, hsame, List.length_map]
    exact h.numbered
  · intro ticket hticket
    obtain ⟨hbefore, hne⟩ := Gate.mem_tickets_drop.1 hticket
    obtain ⟨b, hb, rfl, hended⟩ := h.known ticket hbefore
    exact ⟨b, List.mem_map.2 ⟨b, hb, if_neg hne⟩, rfl, hended⟩
  · intro b hb
    obtain ⟨c, hc, rfl⟩ := List.mem_map.1 hb
    rw [released]
    split
    · exact ⟨nofun, nofun⟩
    · exact h.ended c hc

theorem Sound.close (h : s.Sound asked) : s.close.Sound asked where
  gate := h.gate.close
  numbered := h.numbered
  known := by
    intro ticket hticket
    refine h.known ticket (List.mem_append_left _ ?_)
    simpa [Acquisitions.close, Gate.close, Gate.tickets] using hticket
  ended := h.ended

theorem Sound.cancel (h : s.Sound asked) (token : String) : (s.cancel token).Sound asked := by
  rw [Acquisitions.cancel]
  split
  · exact h
  · have hlater : ({ s with cancelled := s.cancelled.insert token s.now } : Acquisitions).Sound
        asked := ⟨h.gate, h.numbered, h.known, h.ended⟩
    exact hlater.settle

/-- **Whatever happens**, the books stay right. -/
theorem Step.sound (hstep : Step asked s s') (h : s.Sound asked) : s'.Sound asked := by
  cases hstep with
  | acquire name timeout token => exact h.acquire name timeout token
  | release name => exact h.release name
  | close => exact h.close
  | cancel token => exact h.cancel token
  | advance later => exact h.advance _
  | work duration timeout token => exact h.work duration timeout token

theorem Steps.sound (hsteps : Steps asked s s') (h : s.Sound asked) : s'.Sound asked := by
  induction hsteps with
  | refl => exact h
  | tail _ hstep ih => exact hstep.sound ih

theorem capacity_settle (s : Acquisitions) : s.settle.gate.capacity = s.gate.capacity :=
  Gate.capacity_foldl_drop Acquisition.ticket _ s.gate

theorem capacity_advance (s : Acquisitions) (moment : Nat) :
    (s.advance moment).gate.capacity = s.gate.capacity := by
  have hjumps (moments : List Nat) (s : Acquisitions) :
      (moments.foldl Acquisitions.jump s).gate.capacity = s.gate.capacity := by
    induction moments generalizing s with
    | nil => rfl
    | cons moment rest ih => exact (ih _).trans (capacity_settle _)
  exact (capacity_settle _).trans (hjumps _ s)

/-- The number of units stays what it is. -/
theorem Step.capacity_eq (hstep : Step asked s s') : s'.gate.capacity = s.gate.capacity := by
  cases hstep with
  | acquire name timeout token =>
    rw [Acquisitions.acquire]
    split
    · rfl
    · exact s.gate.acquire_capacity _ _
  | release name =>
    rcases s.release_cases name with ⟨-, hsame⟩ | ⟨a, -, -, hrelease⟩
    · rw [hsame]
    · rw [hrelease]
      rfl
  | close => rfl
  | cancel token =>
    rw [Acquisitions.cancel]
    split
    · rfl
    · exact capacity_settle _
  | advance later => exact capacity_advance s _
  | work duration timeout token =>
    simp only [Acquisitions.work]
    split
    · rfl
    · split <;> exact capacity_advance s _
    · exact capacity_advance s _

theorem Steps.capacity_eq (hsteps : Steps asked s s') : s'.gate.capacity = s.gate.capacity := by
  induction hsteps with
  | refl => rfl
  | tail _ hstep ih => exact hstep.capacity_eq.trans ih

/-! ### Live permits -/

/-- The requests that hold a permit. -/
def held (s : Acquisitions) : List Acquisition :=
  s.requests.filter fun a => decide (s.standing a = .held)

theorem mem_held_iff : a ∈ s.held ↔ a ∈ s.requests ∧ s.standing a = .held := by
  simp [held]

/-- The units of the permits that are held, each by the weight that was asked for. -/
def liveUnits (asked : Nat → Nat) (s : Acquisitions) : Nat :=
  (s.held.map fun a => s.gate.clampWeight (asked a.ticket)).sum

/-- The tickets of live permits are those that the gate has granted. -/
theorem Sound.held_perm (h : s.Sound asked) :
    (s.held.map Acquisition.ticket).Perm (s.gate.permits.map Permit.ticket) := by
  have hrequests : (s.requests.map Acquisition.ticket).Nodup := by
    rw [h.numbered]
    exact List.nodup_range
  have hheld : (s.held.map Acquisition.ticket).Nodup :=
    hrequests.sublist ((List.filter_sublist (p := fun a => decide (s.standing a = .held))).map _)
  refine (List.perm_ext_iff_of_nodup hheld (List.nodup_append.1 h.gate.distinct).1).2 ?_
  intro ticket
  rw [← Gate.holds_iff, List.mem_map]
  constructor
  · rintro ⟨a, ha, rfl⟩
    obtain ⟨hmem, hstanding⟩ := mem_held_iff.1 ha
    exact (h.standing_eq_held_iff hmem).1 hstanding
  · intro hholds
    obtain ⟨a, ha, rfl, -⟩ := h.known _ (Gate.mem_tickets_iff.2 (.inl hholds))
    exact ⟨a, mem_held_iff.2 ⟨ha, (h.standing_eq_held_iff ha).2 hholds⟩, rfl⟩

/-- **The units of live permits** are those that the books of the gate say are held. -/
theorem Sound.liveUnits_eq (h : s.Sound asked) :
    s.liveUnits asked = Gate.unitsHeld s.gate.permits := by
  rw [h.gate.unitsHeld_eq, ← (h.held_perm.map _).sum_eq, List.map_map]
  rfl

/-- No live permit, no units held. -/
theorem liveUnits_eq_zero (hnone : ∀ a ∈ s.requests, s.standing a ≠ .held) :
    s.liveUnits asked = 0 := by
  have hheld : s.held = [] := by
    rw [held, List.filter_eq_nil_iff]
    intro a ha
    simpa using hnone a ha
  rw [liveUnits, hheld]
  rfl

/-- **The units that live permits stand for** never exceed the capacity. -/
theorem Sound.liveUnits_le (h : s.Sound asked) : s.liveUnits asked ≤ s.gate.capacity := by
  rw [h.liveUnits_eq]
  exact h.gate.unitsHeld_le

/-- **While nobody waits** the units that live permits do not stand for are free. -/
theorem Sound.free_eq (h : s.Sound asked) (hnone : ∀ a ∈ s.requests, s.standing a ≠ .waiting) :
    s.gate.free = s.gate.capacity - s.liveUnits asked := by
  rw [h.liveUnits_eq]
  exact h.gate.free_eq (h.queue_eq_nil_iff.2 hnone)

/-- **A permit that is released** while nobody waits returns its units. -/
theorem Sound.free_release {name : String} (h : s.Sound asked)
    (hnone : ∀ a ∈ s.requests, s.standing a ≠ .waiting)
    (hlatest : s.requests.reverse.find? (fun a => a.name == name) = some a)
    (hheld : s.standing a = .held) :
    (s.release name).2.gate.free = s.gate.free + s.gate.clampWeight (asked a.ticket) := by
  rcases s.release_cases name with ⟨hnever, -⟩ | ⟨found, hfound, hlatest', hrelease⟩
  · cases hnever.symm.trans hlatest
  obtain rfl : found = a := Option.some.inj (hlatest'.symm.trans hlatest)
  rw [hrelease]
  exact h.gate.free_drop (h.queue_eq_nil_iff.2 hnone) ((h.standing_eq_held_iff hfound).1 hheld)

/-! ### After closing -/

/-- What is left of the requests at a gate since it was closed: nobody waits, only those hold a
permit that held one then, and the others have not been taken up again. -/
structure Shut (s s' : Acquisitions) : Prop where
  closed : s'.gate.closed = true
  onlyHeld : ∀ ticket ∈ s'.gate.tickets, s.gate.holds ticket = true
  request : ∀ a ∈ s.requests, a.ended = none → ∃ b ∈ s'.requests, b.ticket = a.ticket ∧
    (b.ended = some .gone ∨
      b.ended = none ∧ (s.gate.holds a.ticket = true → s'.gate.holds a.ticket = true))

theorem shut_close (s : Acquisitions) : Shut s s.close where
  closed := rfl
  onlyHeld := by
    intro ticket hticket
    rw [Gate.holds_iff]
    simpa [Acquisitions.close, Gate.close, Gate.tickets] using hticket
  request := fun a ha hended => ⟨a, ha, rfl, .inr ⟨hended, id⟩⟩

/-- While nobody waits, no context stops a request. -/
theorem settle_eq (hnone : ∀ a ∈ s.requests, s.standing a ≠ .waiting) : s.settle = s := by
  have hverdict : ∀ a ∈ s.requests, s.verdict? a = none := fun a ha => by
    rw [verdict?, if_neg (hnone a ha)]
  have hstopped : (s.requests.filter fun a => (s.verdict? a).isSome) = [] := by
    rw [List.filter_eq_nil_iff]
    intro a ha
    rw [hverdict a ha]
    exact Bool.false_ne_true
  have hrequests : s.requests.map s.settled = s.requests :=
    (List.map_congr_left fun a ha => settled_of_none (hverdict a ha)).trans (List.map_id _)
  have hsettle : s.settle = { s with
      gate := (s.requests.filter fun a => (s.verdict? a).isSome).foldl
        (fun g a => g.drop a.ticket) s.gate
      requests := s.requests.map s.settled } := rfl
  rw [hsettle, hstopped, hrequests]
  rfl

section Shut

variable {s₀ : Acquisitions}

/-- Time and cancellations do nothing to a closed gate. -/
theorem Shut.settle (h : Shut s₀ s) (hsound : s.Sound asked) : Shut s₀ s.settle := by
  rw [settle_eq (hsound.queue_eq_nil_iff.1 (hsound.gate.noneWaits h.closed))]
  exact h

theorem Shut.jump (h : Shut s₀ s) (hsound : s.Sound asked) (moment : Nat) :
    Shut s₀ (s.jump moment) := by
  have hlater : Shut s₀ { s with now := moment } := ⟨h.closed, h.onlyHeld, h.request⟩
  have hsound' : ({ s with now := moment } : Acquisitions).Sound asked :=
    ⟨hsound.gate, hsound.numbered, hsound.known, hsound.ended⟩
  exact hlater.settle hsound'

theorem Shut.advance (h : Shut s₀ s) (hsound : s.Sound asked) (moment : Nat) :
    Shut s₀ (s.advance moment) := by
  have hjumps (moments : List Nat) : Shut s₀ (moments.foldl Acquisitions.jump s) := by
    induction moments generalizing s with
    | nil => exact h
    | cons moment rest ih => exact ih (h.jump hsound moment) (hsound.jump moment)
  exact (hjumps _).jump (hsound.foldl_jump _) moment

theorem Shut.acquire (h : Shut s₀ s) (name : String) (weight : Nat) (timeout : Option Nat)
    (token : Option String) : Shut s₀ (s.acquire name weight timeout token) := by
  have hsame : s.gate.acquire s.requests.length weight = s.gate := by
    rw [Gate.acquire]
    exact if_pos h.closed
  have hold (a : Acquisition) (ha : a ∈ s₀.requests) (hended : a.ended = none)
      (fresh : Acquisition) : ∃ b ∈ s.requests ++ [fresh], b.ticket = a.ticket ∧
        (b.ended = some .gone ∨
          b.ended = none ∧ (s₀.gate.holds a.ticket = true → s.gate.holds a.ticket = true)) := by
    obtain ⟨b, hb, hstands⟩ := h.request a ha hended
    exact ⟨b, List.mem_append_left _ hb, hstands⟩
  rw [Acquisitions.acquire]
  split
  · exact ⟨h.closed, h.onlyHeld, fun a ha hended => hold a ha hended _⟩
  · rw [hsame]
    exact ⟨h.closed, h.onlyHeld, fun a ha hended => hold a ha hended _⟩

theorem Shut.release (h : Shut s₀ s) (name : String) : Shut s₀ (s.release name).2 := by
  rcases s.release_cases name with ⟨-, hsame⟩ | ⟨found, -, -, hrelease⟩
  · rw [hsame]
    exact h
  rw [hrelease]
  refine ⟨h.closed, fun ticket hticket => ?_, fun a ha hended => ?_⟩
  · exact h.onlyHeld ticket (Gate.mem_tickets_drop.1 hticket).1
  · obtain ⟨b, hb, hticket, hstands⟩ := h.request a ha hended
    refine ⟨released found.ticket b, List.mem_map_of_mem hb,
      (ticket_released _ b).trans hticket, ?_⟩
    by_cases hfound : b.ticket = found.ticket
    · rw [released, if_pos hfound]
      exact .inl rfl
    · rw [released, if_neg hfound]
      refine hstands.imp_right fun ⟨hnone, hholds⟩ => ⟨hnone, fun hheld => ?_⟩
      exact Gate.holds_drop_of_ne (hholds hheld) (hticket ▸ hfound)

theorem Shut.close (h : Shut s₀ s) : Shut s₀ s.close where
  closed := rfl
  onlyHeld := by
    intro ticket hticket
    refine h.onlyHeld ticket (List.mem_append_left _ ?_)
    simpa [Acquisitions.close, Gate.close, Gate.tickets] using hticket
  request := h.request

/-- **Nothing that happens after closing** takes a request up again. -/
theorem Shut.step (h : Shut s₀ s) (hsound : s.Sound asked) (hstep : Step asked s s') :
    Shut s₀ s' := by
  cases hstep with
  | acquire name timeout token => exact h.acquire name _ timeout token
  | release name => exact h.release name
  | close => exact h.close
  | cancel token =>
    rw [cancel]
    split
    · exact h
    · have hlater : Shut s₀ { s with cancelled := s.cancelled.insert token s.now } :=
        ⟨h.closed, h.onlyHeld, h.request⟩
      have hsound' : ({ s with cancelled := s.cancelled.insert token s.now } :
          Acquisitions).Sound asked :=
        ⟨hsound.gate, hsound.numbered, hsound.known, hsound.ended⟩
      exact hlater.settle hsound'
  | advance later => exact h.advance hsound _
  | work duration timeout token =>
    simp only [work]
    split
    · exact h
    · split
      · exact h.advance hsound _
      · exact h.advance hsound _
    · exact h.advance hsound _

theorem Steps.shut (hsteps : Steps asked s.close s') (h : s.Sound asked) : Shut s s' := by
  induction hsteps with
  | refl => exact shut_close s
  | tail hbefore hstep ih => exact ih.step (Steps.sound hbefore h.close) hstep

/-- **A request that waits** when the gate is closed fails at once. -/
theorem Sound.standing_close (h : s.Sound asked) (ha : a ∈ s.requests)
    (hwaiting : s.standing a = .waiting) : s.close.standing a = .failed .gateClosed := by
  have hwaits := (h.standing_eq_waiting_iff ha).1 hwaiting
  have hended := h.ended_eq_none ha (Gate.mem_tickets_iff.2 (.inr hwaits))
  have hnot : ¬ s.gate.holds a.ticket = true := by
    intro hholds
    exact List.disjoint_of_nodup_append h.gate.distinct (Gate.holds_iff.1 hholds)
      (Gate.waits_iff.1 hwaits)
  have hholds : s.close.gate.holds a.ticket = false := Bool.eq_false_iff.2 hnot
  have hnever : s.close.gate.waits a.ticket = false := rfl
  rw [standing, hended]
  simp only [hholds, hnever, Bool.false_eq_true, if_false]

/-- **Nobody waits** at a closed gate, and only those hold a permit that held one when it was
closed. -/
theorem Shut.standing_ne_waiting (h : Shut s s') (hsound : s'.Sound asked) (hb : b ∈ s'.requests) :
    s'.standing b ≠ .waiting :=
  hsound.queue_eq_nil_iff.1 (hsound.gate.noneWaits h.closed) b hb

theorem Shut.held_before (h : Shut s s') (hsound : s.Sound asked) (hsound' : s'.Sound asked)
    (hb : b ∈ s'.requests) (hheld : s'.standing b = .held) :
    ∃ a ∈ s.requests, a.ticket = b.ticket ∧ s.standing a = .held := by
  have hholds := (hsound'.standing_eq_held_iff hb).1 hheld
  have hbefore := h.onlyHeld _ (Gate.mem_tickets_iff.2 (.inl hholds))
  obtain ⟨a, ha, hticket, -⟩ := hsound.known _ (Gate.mem_tickets_iff.2 (.inl hbefore))
  exact ⟨a, ha, hticket, (hsound.standing_eq_held_iff ha).2 (hticket ▸ hbefore)⟩

/-- A request that waits when the gate is closed fails, unless it is released. -/
theorem Shut.standing_of_waiting (h : Shut s s') (hsound : s.Sound asked)
    (ha : a ∈ s.requests) (hwaiting : s.standing a = .waiting) :
    ∃ b ∈ s'.requests, b.ticket = a.ticket ∧
      (s'.standing b = .failed .gateClosed ∨ s'.standing b = .gone) := by
  have hwaits := (hsound.standing_eq_waiting_iff ha).1 hwaiting
  have hended := hsound.ended_eq_none ha (Gate.mem_tickets_iff.2 (.inr hwaits))
  obtain ⟨b, hb, hticket, hstands⟩ := h.request a ha hended
  refine ⟨b, hb, hticket, ?_⟩
  rcases hstands with hgone | ⟨hnone, -⟩
  · rw [standing, hgone]
    exact .inr rfl
  · have hunknown : b.ticket ∉ s'.gate.tickets := by
      intro hmem
      rw [hticket] at hmem
      exact List.disjoint_of_nodup_append hsound.gate.distinct
        (Gate.holds_iff.1 (h.onlyHeld _ hmem)) (Gate.waits_iff.1 hwaits)
    obtain ⟨hholds, hwaits'⟩ := not_or.1 (fun hmem => hunknown (Gate.mem_tickets_iff.2 hmem))
    rw [standing, hnone]
    simp [hholds, hwaits']

/-- A request that holds a permit when the gate is closed keeps it until it is released. -/
theorem Shut.standing_of_held (h : Shut s s') (hsound : s.Sound asked) (hsound' : s'.Sound asked)
    (ha : a ∈ s.requests) (hheld : s.standing a = .held) :
    ∃ b ∈ s'.requests, b.ticket = a.ticket ∧
      (s'.standing b = .held ∨ s'.standing b = .gone) := by
  have hholds := (hsound.standing_eq_held_iff ha).1 hheld
  have hended := hsound.ended_eq_none ha (Gate.mem_tickets_iff.2 (.inl hholds))
  obtain ⟨b, hb, hticket, hstands⟩ := h.request a ha hended
  refine ⟨b, hb, hticket, ?_⟩
  rcases hstands with hgone | ⟨-, hkeeps⟩
  · rw [standing, hgone]
    exact .inr rfl
  · exact .inl ((hsound'.standing_eq_held_iff hb).2 (hticket ▸ hkeeps hholds))

end Shut

end QueryCache.Acquisitions
