import Mathlib
import QueryCache.Gate

/-!
# The units of a gate

A gate hands out no more units than it has, and loses none. Every unit is free, belongs to a permit,
or has been taken by a request that waits for more; and as long as a request waits, no unit is free.
So the units that permits stand for never exceed the capacity, and while nobody waits the others are
free.

## Main definitions

* `Gate.tickets` : the requests that are granted or wait.
* `Gate.Balanced`, `Gate.Sound` : the books of a gate.
* `Gate.Idle` : nobody has units or waits for them.
* `Gate.Moves` : some parties do something at a gate, as the others see it.

## Main results

* `Gate.serve_serves` : what waiting requests are served with.
* `Gate.Sound.acquire`, `Gate.Sound.drop`, `Gate.Sound.close` : what the operations preserve.
* `Gate.Sound.unitsHeld_le`, `Gate.Sound.free_eq` : the units that are held and those that are free.
* `Gate.Moves.of_gone` : parties that have left have done nothing to anybody.
-/

namespace QueryCache

namespace Gate

variable {g : Gate} {asked : Nat → Nat} {ticket other units lacking weight : Nat}

/-! ### Requests -/

/-- The tickets of the requests that are granted or wait. -/
def tickets (g : Gate) : List Nat := g.permits.map Permit.ticket ++ g.queue.map Waiter.ticket

theorem holds_iff : g.holds ticket = true ↔ ticket ∈ g.permits.map Permit.ticket := by
  simp [holds]

theorem waits_iff : g.waits ticket = true ↔ ticket ∈ g.queue.map Waiter.ticket := by
  simp [waits]

theorem mem_tickets_iff :
    ticket ∈ g.tickets ↔ g.holds ticket = true ∨ g.waits ticket = true := by
  rw [tickets, List.mem_append, holds_iff, waits_iff]

theorem one_le_clampWeight (g : Gate) (weight : Nat) : 1 ≤ g.clampWeight weight :=
  Nat.le_max_left _ _

theorem clampWeight_le (h : 0 < g.capacity) (weight : Nat) : g.clampWeight weight ≤ g.capacity := by
  rw [clampWeight]
  omega

/-- A single unit needs no clamping. -/
theorem clampWeight_one (g : Gate) : g.clampWeight 1 = 1 := by
  rw [clampWeight]
  omega

/-! ### Counting units -/

theorem unitsHeld_append (ps qs : List Permit) :
    unitsHeld (ps ++ qs) = unitsHeld ps + unitsHeld qs := by
  induction ps with
  | nil => simp [unitsHeld]
  | cons p rest ih => simp only [List.cons_append, unitsHeld, ih, Nat.add_assoc]

theorem unitsTaken_append (ws vs : List Waiter) :
    unitsTaken (ws ++ vs) = unitsTaken ws + unitsTaken vs := by
  induction ws with
  | nil => simp [unitsTaken]
  | cons w rest ih => simp only [List.cons_append, unitsTaken, ih, Nat.add_assoc]

theorem unitsTaken_eq_zero {ws : List Waiter} (h : ∀ w ∈ ws, w.taken = 0) : unitsTaken ws = 0 := by
  induction ws with
  | nil => rfl
  | cons w rest ih =>
    obtain ⟨hw, hrest⟩ := List.forall_mem_cons.1 h
    rw [unitsTaken, hw, ih hrest]

theorem unitsHeld_filter (ticket : Nat) (ps : List Permit) :
    unitsHeld (ps.filter fun p => p.ticket == ticket) +
      unitsHeld (ps.filter fun p => p.ticket != ticket) = unitsHeld ps := by
  induction ps with
  | nil => rfl
  | cons p rest ih =>
    by_cases h : p.ticket = ticket <;> simp [h, unitsHeld] <;> omega

theorem unitsTaken_filter (ticket : Nat) (ws : List Waiter) :
    unitsTaken (ws.filter fun w => w.ticket == ticket) +
      unitsTaken (ws.filter fun w => w.ticket != ticket) = unitsTaken ws := by
  induction ws with
  | nil => rfl
  | cons w rest ih =>
    by_cases h : w.ticket = ticket <;> simp [h, unitsTaken] <;> omega

/-! ### Serving -/

/-- Serving changes no ticket, and no order. -/
theorem tickets_serve (units : Nat) (queue : List Waiter) :
    (serve units queue).1.map Permit.ticket ++ (serve units queue).2.1.map Waiter.ticket =
      queue.map Waiter.ticket := by
  induction queue generalizing units with
  | nil => rfl
  | cons w rest ih =>
    rw [serve]
    split
    · have hrest := ih (w.taken + units - w.weight)
      simpa using hrest
    · rfl

/-- Units have been given to waiting requests in their order: some are granted, the others go on
waiting, and units are left only if nobody waits any more. -/
structure Serves (units : Nat) (queue : List Waiter) (granted : List Permit)
    (waiting : List Waiter) (left : Nat) : Prop where
  balance : unitsHeld granted + unitsTaken waiting + left = units + unitsTaken queue
  order : granted.map Permit.ticket ++ waiting.map Waiter.ticket = queue.map Waiter.ticket
  fromQueue : ∀ p ∈ granted, ∃ w ∈ queue, p.ticket = w.ticket ∧ p.weight = w.weight
  stillWaits : ∀ v ∈ waiting, v.taken < v.weight ∧
    ∃ w ∈ queue, v.ticket = w.ticket ∧ v.weight = w.weight
  noneLeft : waiting ≠ [] → left = 0

/-- **Serving** gives away all units that somebody waits for, and loses none. -/
theorem serve_serves (units : Nat) {queue : List Waiter} (h : ∀ w ∈ queue, w.taken < w.weight) :
    Serves units queue (serve units queue).1 (serve units queue).2.1 (serve units queue).2.2 := by
  induction queue generalizing units with
  | nil =>
    refine ⟨?_, rfl, nofun, nofun, fun hne => (hne rfl).elim⟩
    simp [serve, unitsHeld, unitsTaken]
  | cons w rest ih =>
    obtain ⟨hw, hrest⟩ := List.forall_mem_cons.1 h
    rw [serve]
    split
    next hcomplete =>
      have horder := tickets_serve (w.taken + units - w.weight) rest
      rcases hrestServed : serve (w.taken + units - w.weight) rest with ⟨granted, waiting, left⟩
      have hserves := ih (w.taken + units - w.weight) hrest
      rw [hrestServed] at hserves horder
      refine ⟨?_, ?_, ?_, ?_, hserves.noneLeft⟩
      · have hbalance := hserves.balance
        simp only [unitsHeld, unitsTaken] at hbalance ⊢
        omega
      · simpa using horder
      · rintro p hp
        rcases List.mem_cons.1 hp with rfl | hp
        · exact ⟨w, List.mem_cons_self, rfl, rfl⟩
        · obtain ⟨v, hv, hsame⟩ := hserves.fromQueue p hp
          exact ⟨v, List.mem_cons_of_mem _ hv, hsame⟩
      · intro v hv
        obtain ⟨htaken, u, hu, hsame⟩ := hserves.stillWaits v hv
        exact ⟨htaken, u, List.mem_cons_of_mem _ hu, hsame⟩
    next hincomplete =>
      refine ⟨?_, rfl, nofun, ?_, fun _ => rfl⟩
      · simp only [unitsHeld, unitsTaken]
        omega
      · intro v hv
        rcases List.mem_cons.1 hv with rfl | hv
        · exact ⟨by simpa using hincomplete, w, List.mem_cons_self, rfl, rfl⟩
        · exact ⟨hrest v hv, v, List.mem_cons_of_mem _ hv, rfl, rfl⟩

/-! ### The books of a gate -/

/-- The books of a gate are right but for some units that it lacks. Every request was asked with
some weight; those that wait have not got it yet. -/
structure Balanced (asked : Nat → Nat) (lacking : Nat) (g : Gate) : Prop where
  units : g.free + unitsHeld g.permits + unitsTaken g.queue + lacking = g.capacity
  granted : ∀ p ∈ g.permits, p.weight = g.clampWeight (asked p.ticket)
  waiting : ∀ w ∈ g.queue, w.weight = g.clampWeight (asked w.ticket) ∧ w.taken < w.weight
  noneFree : g.queue ≠ [] → g.free = 0
  noneWaits : g.closed = true → g.queue = []
  distinct : g.tickets.Nodup

/-- The books of a gate are right. -/
abbrev Sound (asked : Nat → Nat) (g : Gate) : Prop := g.Balanced asked 0

/-- Nobody has units of the gate or waits for them. -/
structure Idle (g : Gate) : Prop where
  permits : g.permits = []
  queue : g.queue = []
  free : g.free = g.capacity

theorem sound_ofCapacity (asked : Nat → Nat) (capacity : Nat) :
    (ofCapacity capacity).Sound asked :=
  ⟨rfl, nofun, nofun, fun h => (h rfl).elim, nofun, .nil⟩

theorem Idle.sound (h : g.Idle) (asked : Nat → Nat) : g.Sound asked where
  units := by simp [h.permits, h.queue, h.free, unitsHeld, unitsTaken]
  granted := by rw [h.permits]; exact nofun
  waiting := by rw [h.queue]; exact nofun
  noneFree := fun hne => (hne h.queue).elim
  noneWaits := fun _ => h.queue
  distinct := by rw [tickets, h.permits, h.queue]; exact .nil

/-- The books of a gate do not depend on the weights of requests that it does not know. -/
theorem Sound.congr {asked' : Nat → Nat} (h : g.Sound asked)
    (hsame : ∀ ticket ∈ g.tickets, asked' ticket = asked ticket) : g.Sound asked' where
  units := h.units
  granted := fun p hp => by
    rw [hsame p.ticket (List.mem_append_left _ (List.mem_map_of_mem hp))]
    exact h.granted p hp
  waiting := fun w hw => by
    rw [hsame w.ticket (List.mem_append_right _ (List.mem_map_of_mem hw))]
    exact h.waiting w hw
  noneFree := h.noneFree
  noneWaits := h.noneWaits
  distinct := h.distinct

theorem Idle.tickets_eq_nil (h : g.Idle) : g.tickets = [] := by
  rw [tickets, h.permits, h.queue]
  rfl

theorem Sound.idle (h : g.Sound asked) (hnone : g.tickets = []) : g.Idle := by
  obtain ⟨hpermits, hqueue⟩ := List.append_eq_nil_iff.1 hnone
  have hunits := h.units
  rw [List.map_eq_nil_iff.1 hpermits, List.map_eq_nil_iff.1 hqueue, unitsHeld, unitsTaken] at hunits
  exact ⟨List.map_eq_nil_iff.1 hpermits, List.map_eq_nil_iff.1 hqueue, by omega⟩

/-- **The units that permits stand for** never exceed the capacity. -/
theorem Sound.unitsHeld_le (h : g.Sound asked) : unitsHeld g.permits ≤ g.capacity := by
  have hunits := h.units
  omega

/-- **The free units** are those that permits do not stand for, while nobody waits. -/
theorem Sound.free_eq (h : g.Sound asked) (hqueue : g.queue = []) :
    g.free = g.capacity - unitsHeld g.permits := by
  have hunits := h.units
  rw [hqueue, unitsTaken] at hunits
  omega

theorem unitsHeld_eq_sum (ps : List Permit) : unitsHeld ps = (ps.map Permit.weight).sum := by
  induction ps with
  | nil => rfl
  | cons p rest ih => rw [unitsHeld, List.map_cons, List.sum_cons, ih]

/-- The units of permits, each by the weight that was asked for. -/
theorem Sound.unitsHeld_eq (h : g.Sound asked) : unitsHeld g.permits =
    ((g.permits.map Permit.ticket).map fun ticket => g.clampWeight (asked ticket)).sum := by
  rw [unitsHeld_eq_sum, List.map_map]
  exact congrArg List.sum (List.map_congr_left h.granted)

theorem length_le_unitsHeld {ps : List Permit} (h : ∀ p ∈ ps, 1 ≤ p.weight) :
    ps.length ≤ unitsHeld ps := by
  induction ps with
  | nil => exact Nat.zero_le _
  | cons p rest ih =>
    obtain ⟨hp, hrest⟩ := List.forall_mem_cons.1 h
    have hle := ih hrest
    rw [List.length_cons, unitsHeld]
    omega

/-- There are never more permits than units. -/
theorem Sound.length_permits_le (h : g.Sound asked) : g.permits.length ≤ g.capacity := by
  refine Nat.le_trans (length_le_unitsHeld fun p hp => ?_) h.unitsHeld_le
  rw [h.granted p hp]
  exact g.one_le_clampWeight _

/-! ### Returning units -/

theorem deposit_eq (g : Gate) (units : Nat) :
    g.deposit units = { g with
      free := g.free + (serve units g.queue).2.2
      queue := (serve units g.queue).2.1
      permits := g.permits ++ (serve units g.queue).1 } := rfl

theorem tickets_deposit (g : Gate) (units : Nat) : (g.deposit units).tickets = g.tickets := by
  rw [tickets, tickets, deposit_eq, List.map_append, List.append_assoc, tickets_serve]

/-- **Returned units** go to those that wait, or become free. -/
theorem Balanced.deposit (h : g.Balanced asked units) : (g.deposit units).Sound asked := by
  have hserves := serve_serves units fun w hw => (h.waiting w hw).2
  have hdistinct := h.distinct
  rw [← tickets_deposit g units] at hdistinct
  rw [deposit_eq] at hdistinct ⊢
  refine ⟨?_, ?_, ?_, ?_, ?_, hdistinct⟩
  · have hunits := hserves.balance
    have hbefore := h.units
    simp only [unitsHeld_append]
    omega
  · intro p hp
    rcases List.mem_append.1 hp with hp | hp
    · exact h.granted p hp
    · obtain ⟨w, hw, hticket, hweight⟩ := hserves.fromQueue p hp
      rw [hweight, hticket]
      exact (h.waiting w hw).1
  · intro v hv
    obtain ⟨htaken, w, hw, hticket, hweight⟩ := hserves.stillWaits v hv
    refine ⟨?_, htaken⟩
    rw [hweight, hticket]
    exact (h.waiting w hw).1
  · intro hne
    have hqueue : g.queue ≠ [] := by
      intro hnil
      rw [hnil] at hne
      exact hne rfl
    simp only [h.noneFree hqueue, hserves.noneLeft hne]
  · intro hclosed
    simp only [h.noneWaits hclosed, serve]

/-- The gate without the permit or the place of a ticket, before its units are returned. -/
def without (g : Gate) (ticket : Nat) : Gate :=
  { g with
    permits := g.permits.filter fun p => p.ticket != ticket
    queue := g.queue.filter fun w => w.ticket != ticket }

theorem drop_eq (g : Gate) (ticket : Nat) :
    g.drop ticket = (g.without ticket).deposit (g.unitsOf ticket) := rfl

theorem tickets_without : (g.without ticket).tickets = g.tickets.filter (· != ticket) := by
  simp only [tickets, without, List.filter_append, List.filter_map]
  rfl

theorem Sound.without (h : g.Sound asked) (ticket : Nat) :
    (g.without ticket).Balanced asked (g.unitsOf ticket) where
  units := by
    have hunits := h.units
    have hheld := unitsHeld_filter ticket g.permits
    have htaken := unitsTaken_filter ticket g.queue
    simp only [Gate.without, unitsOf]
    omega
  granted := fun p hp => h.granted p (List.mem_of_mem_filter hp)
  waiting := fun w hw => h.waiting w (List.mem_of_mem_filter hw)
  noneFree := fun hne => h.noneFree fun hnil => hne (by rw [Gate.without, hnil]; rfl)
  noneWaits := fun hclosed => by rw [Gate.without, h.noneWaits hclosed]; rfl
  distinct := by
    rw [tickets_without]
    exact h.distinct.filter _

/-- **Giving up** a permit or a place keeps the books right. -/
theorem Sound.drop (h : g.Sound asked) (ticket : Nat) : (g.drop ticket).Sound asked :=
  (h.without ticket).deposit

theorem unitsHeld_filter_of_mem {ps : List Permit} {p : Permit} (hp : p ∈ ps)
    (hdistinct : (ps.map Permit.ticket).Nodup) :
    unitsHeld (ps.filter fun q => q.ticket == p.ticket) = p.weight := by
  induction ps with
  | nil => cases hp
  | cons q rest ih =>
    obtain ⟨hnot, hrest⟩ := List.nodup_cons.1 hdistinct
    rcases List.mem_cons.1 hp with rfl | hmem
    · have hnone : (rest.filter fun q => q.ticket == p.ticket) = [] := by
        rw [List.filter_eq_nil_iff]
        intro q hq heq
        exact hnot (beq_iff_eq.1 heq ▸ List.mem_map_of_mem hq)
      simp [hnone, unitsHeld]
    · have hne : q.ticket ≠ p.ticket := fun heq => hnot (heq ▸ List.mem_map_of_mem hmem)
      simp [hne, ih hmem hrest]

/-- **The units of a permit that is dropped** become free if nobody waits. -/
theorem Sound.free_drop (h : g.Sound asked) (hqueue : g.queue = [])
    (hholds : g.holds ticket = true) :
    (g.drop ticket).free = g.free + g.clampWeight (asked ticket) := by
  obtain ⟨p, hp, rfl⟩ := List.mem_map.1 (holds_iff.1 hholds)
  have hdistinct := (List.nodup_append.1 h.distinct).1
  rw [drop_eq, deposit_eq, unitsOf, unitsHeld_filter_of_mem hp hdistinct, h.granted p hp,
    Gate.without, hqueue]
  rfl

/-- Whoever gives up is gone, and nobody else. -/
theorem tickets_drop (g : Gate) (ticket : Nat) :
    (g.drop ticket).tickets = g.tickets.filter (· != ticket) := by
  rw [drop_eq, tickets_deposit, tickets_without]

theorem mem_tickets_drop :
    other ∈ (g.drop ticket).tickets ↔ other ∈ g.tickets ∧ other ≠ ticket := by
  rw [tickets_drop, List.mem_filter, bne_iff_ne]

/-- Other permits stay. -/
theorem holds_drop_of_ne (h : g.holds other = true) (hne : other ≠ ticket) :
    (g.drop ticket).holds other = true := by
  rw [holds_iff] at h ⊢
  obtain ⟨p, hp, rfl⟩ := List.mem_map.1 h
  exact List.mem_map_of_mem (List.mem_append_left _ (List.mem_filter.2 ⟨hp, bne_iff_ne.2 hne⟩))

/-- Nothing changes if a ticket is given up that has nothing. -/
theorem Sound.drop_of_notMem (h : g.Sound asked) (hnot : ticket ∉ g.tickets) :
    g.drop ticket = g := by
  obtain ⟨hpermits, hqueue⟩ := not_or.1 (fun hmem => hnot (List.mem_append.2 hmem))
  have hpermits' : ∀ p ∈ g.permits, p.ticket ≠ ticket :=
    fun p hp heq => hpermits (heq ▸ List.mem_map_of_mem hp)
  have hqueue' : ∀ w ∈ g.queue, w.ticket ≠ ticket :=
    fun w hw heq => hqueue (heq ▸ List.mem_map_of_mem hw)
  have hwithout : g.without ticket = g := by
    rw [Gate.without, List.filter_eq_self.2 fun p hp => bne_iff_ne.2 (hpermits' p hp),
      List.filter_eq_self.2 fun w hw => bne_iff_ne.2 (hqueue' w hw)]
  have hunits : g.unitsOf ticket = 0 := by
    rw [unitsOf, List.filter_eq_nil_iff.2 fun p hp => by simpa using hpermits' p hp,
      List.filter_eq_nil_iff.2 fun w hw => by simpa using hqueue' w hw]
    rfl
  have hserve : serve 0 g.queue = ([], g.queue, 0) := by
    cases hq : g.queue with
    | nil => rfl
    | cons w rest =>
      have htaken := (h.waiting w (by rw [hq]; exact List.mem_cons_self)).2
      rw [serve, if_neg (by omega)]
      rfl
  rw [drop_eq, hwithout, hunits, deposit, hserve]
  simp

/-- Several give up one after the other. -/
theorem Sound.foldl_drop {α : Type} (h : g.Sound asked) (ticketOf : α → Nat) (l : List α) :
    (l.foldl (fun g a => g.drop (ticketOf a)) g).Sound asked ∧
      ∀ other, other ∈ (l.foldl (fun g a => g.drop (ticketOf a)) g).tickets ↔
        other ∈ g.tickets ∧ other ∉ l.map ticketOf := by
  induction l generalizing g with
  | nil => exact ⟨h, by simp⟩
  | cons a rest ih =>
    obtain ⟨hsound, htickets⟩ := ih (h.drop (ticketOf a))
    refine ⟨hsound, fun other => ?_⟩
    rw [List.foldl_cons, htickets, mem_tickets_drop, List.map_cons, List.mem_cons, not_or,
      and_assoc]

theorem capacity_foldl_drop {α : Type} (ticketOf : α → Nat) (l : List α) (g : Gate) :
    (l.foldl (fun g a => g.drop (ticketOf a)) g).capacity = g.capacity := by
  induction l generalizing g with
  | nil => rfl
  | cons a rest ih => exact ih (g.drop (ticketOf a))

/-! ### Asking for units -/

/-- A request at an open gate is granted if there are units enough and waits otherwise; a closed
gate does not take it. -/
theorem acquire_cases (g : Gate) (ticket weight : Nat) :
    (g.closed = true ∧ g.acquire ticket weight = g) ∨
      (g.closed = false ∧ g.clampWeight weight ≤ g.free ∧ g.acquire ticket weight =
        { g with
          free := g.free - g.clampWeight weight
          permits := g.permits ++ [⟨ticket, g.clampWeight weight⟩] }) ∨
      (g.closed = false ∧ g.free < g.clampWeight weight ∧ g.acquire ticket weight =
        { g with free := 0, queue := g.queue ++ [⟨ticket, g.clampWeight weight, g.free⟩] }) := by
  rw [acquire]
  split
  next hclosed => exact .inl ⟨hclosed, rfl⟩
  next hopen =>
    have hopen' : g.closed = false := by simpa using hopen
    split
    next henough => exact .inr (.inl ⟨hopen', henough, rfl⟩)
    next hshort => exact .inr (.inr ⟨hopen', Nat.lt_of_not_le hshort, rfl⟩)

theorem acquire_capacity (g : Gate) (ticket weight : Nat) :
    (g.acquire ticket weight).capacity = g.capacity := by
  rcases g.acquire_cases ticket weight with ⟨-, h⟩ | ⟨-, -, h⟩ | ⟨-, -, h⟩ <;> rw [h]

/-- Nobody waits while units are free. -/
theorem Sound.queue_eq_nil (h : g.Sound asked) (hfree : 0 < g.free) : g.queue = [] := by
  by_contra hne
  have hnone := h.noneFree hne
  omega

theorem Sound.tickets_acquire (h : g.Sound asked) (ticket weight : Nat) :
    (g.acquire ticket weight).tickets = g.tickets ∨
      (g.acquire ticket weight).tickets = g.tickets ++ [ticket] := by
  rcases g.acquire_cases ticket weight with ⟨-, hg⟩ | ⟨-, henough, hg⟩ | ⟨-, -, hg⟩
  · exact .inl (by rw [hg])
  · have hweight := g.one_le_clampWeight weight
    have hqueue := h.queue_eq_nil (by omega)
    refine .inr ?_
    rw [hg, tickets, tickets, hqueue]
    simp
  · refine .inr ?_
    rw [hg, tickets, tickets]
    simp

/-- **A new request** keeps the books right. -/
theorem Sound.acquire (h : g.Sound asked) (hnew : ticket ∉ g.tickets) :
    (g.acquire ticket (asked ticket)).Sound asked := by
  have hdistinct : (g.acquire ticket (asked ticket)).tickets.Nodup := by
    rcases h.tickets_acquire ticket (asked ticket) with hsame | hmore
    · rw [hsame]
      exact h.distinct
    · rw [hmore]
      exact h.distinct.append (List.nodup_singleton _) (List.disjoint_singleton.2 hnew)
  have hunits := h.units
  rcases g.acquire_cases ticket (asked ticket) with ⟨-, hg⟩ | ⟨hopen, henough, hg⟩ |
      ⟨hopen, hshort, hg⟩
  · rw [hg]
    exact h
  · rw [hg] at hdistinct ⊢
    refine ⟨?_, ?_, h.waiting, ?_, h.noneWaits, hdistinct⟩
    · simp only [unitsHeld_append, unitsHeld]
      omega
    · intro p hp
      rcases List.mem_append.1 hp with hp | hp
      · exact h.granted p hp
      · rw [List.mem_singleton.1 hp]
        rfl
    · intro hne
      have hnone := h.noneFree hne
      simp only [hnone, Nat.zero_sub]
  · rw [hg] at hdistinct ⊢
    refine ⟨?_, h.granted, ?_, fun _ => rfl, ?_, hdistinct⟩
    · simp only [unitsTaken_append, unitsTaken]
      omega
    · intro w hw
      rcases List.mem_append.1 hw with hw | hw
      · exact h.waiting w hw
      · rw [List.mem_singleton.1 hw]
        exact ⟨rfl, hshort⟩
    · intro hclosed
      exact absurd hclosed (by simp [hopen])

/-! ### Closing -/

/-- **Closing** keeps the books right. -/
theorem Sound.close (h : g.Sound asked) : g.close.Sound asked where
  units := by
    have hunits := h.units
    simp only [Gate.close, unitsTaken]
    omega
  granted := h.granted
  waiting := nofun
  noneFree := fun hne => (hne rfl).elim
  noneWaits := fun _ => rfl
  distinct := by
    have hdistinct := h.distinct
    rw [tickets] at hdistinct ⊢
    simpa [Gate.close] using (List.nodup_append.1 hdistinct).1

theorem closed_acquire (g : Gate) (ticket weight : Nat) :
    (g.acquire ticket weight).closed = g.closed := by
  rcases g.acquire_cases ticket weight with ⟨-, h⟩ | ⟨-, -, h⟩ | ⟨-, -, h⟩ <;> rw [h]

/-! ### Other parties -/

theorem holds_acquire (h : g.holds other = true) :
    (g.acquire ticket weight).holds other = true := by
  rw [holds_iff] at h ⊢
  rcases g.acquire_cases ticket weight with ⟨-, hg⟩ | ⟨-, -, hg⟩ | ⟨-, -, hg⟩ <;> rw [hg]
  · exact h
  · rw [List.map_append]
    exact List.mem_append_left _ h
  · exact h

/-- Some parties do something at a gate. Its books stay right, and the others keep what they have;
who waits may be granted. -/
structure Moves (asked : Nat → Nat) (own : List Nat) (g g' : Gate) : Prop where
  sound : g'.Sound asked
  capacity : g'.capacity = g.capacity
  closed : g'.closed = g.closed
  known : ∀ ticket ∉ own, ticket ∈ g'.tickets ↔ ticket ∈ g.tickets
  holds : ∀ ticket ∉ own, g.holds ticket = true → g'.holds ticket = true

section Moves

variable {g' g'' : Gate} {own own' : List Nat}

theorem Moves.refl (h : g.Sound asked) : Moves asked own g g :=
  ⟨h, rfl, rfl, fun _ _ => .rfl, fun _ _ => id⟩

theorem Moves.trans (h : Moves asked own g g') (h' : Moves asked own g' g'') :
    Moves asked own g g'' where
  sound := h'.sound
  capacity := h'.capacity.trans h.capacity
  closed := h'.closed.trans h.closed
  known := fun ticket hnot => (h'.known ticket hnot).trans (h.known ticket hnot)
  holds := fun ticket hnot hholds => h'.holds ticket hnot (h.holds ticket hnot hholds)

theorem Moves.mono (h : Moves asked own g g') (hsub : own ⊆ own') : Moves asked own' g g' where
  sound := h.sound
  capacity := h.capacity
  closed := h.closed
  known := fun ticket hnot => h.known ticket fun hmem => hnot (hsub hmem)
  holds := fun ticket hnot => h.holds ticket fun hmem => hnot (hsub hmem)

/-- Parties that have left the gate and were unknown to it before have done nothing to anybody. -/
theorem Moves.of_gone (h : Moves asked own g g') (hbefore : ∀ ticket ∈ own, ticket ∉ g.tickets)
    (hafter : ∀ ticket ∈ own, ticket ∉ g'.tickets) : Moves asked [] g g' where
  sound := h.sound
  capacity := h.capacity
  closed := h.closed
  known := by
    intro ticket _
    by_cases hown : ticket ∈ own
    · exact iff_of_false (hafter ticket hown) (hbefore ticket hown)
    · exact h.known ticket hown
  holds := by
    intro ticket _ hholds
    refine h.holds ticket (fun hown => hbefore ticket hown ?_) hholds
    exact mem_tickets_iff.2 (.inl hholds)

/-- A gate where nobody else is stays free when the parties have left. -/
theorem Moves.idle (h : Moves asked [] g g') (hidle : g.Idle) : g'.Idle := by
  refine h.sound.idle (List.eq_nil_iff_forall_not_mem.2 fun ticket hmem => ?_)
  rw [h.known ticket (List.not_mem_nil), hidle.tickets_eq_nil] at hmem
  exact List.not_mem_nil hmem

theorem clampWeight_of_capacity (h : g'.capacity = g.capacity) (weight : Nat) :
    g'.clampWeight weight = g.clampWeight weight := by
  rw [clampWeight, clampWeight, h]

/-- If nobody waits, nobody waits after other parties have come and gone. -/
theorem Moves.queue_eq_nil (h : Moves asked [] g g') (hqueue : g.queue = []) : g'.queue = [] := by
  by_contra hne
  obtain ⟨w, rest, hcons⟩ := List.exists_cons_of_ne_nil hne
  have hwaits : g'.waits w.ticket = true := by
    rw [waits_iff, hcons]
    exact List.mem_cons_self
  have hknown := (h.known _ List.not_mem_nil).1 (mem_tickets_iff.2 (.inr hwaits))
  rw [tickets, hqueue, List.map_nil, List.append_nil, ← holds_iff] at hknown
  exact List.disjoint_of_nodup_append h.sound.distinct
    (holds_iff.1 (h.holds _ List.not_mem_nil hknown)) (waits_iff.1 hwaits)

/-- **The units that are free** while nobody waits are free after other parties have come and gone.
-/
theorem Moves.free_eq (h : Moves asked [] g g') (hsound : g.Sound asked) (hqueue : g.queue = []) :
    g'.free = g.free := by
  have htickets : g.tickets = g.permits.map Permit.ticket := by simp [tickets, hqueue]
  have htickets' : g'.tickets = g'.permits.map Permit.ticket := by
    simp [tickets, h.queue_eq_nil hqueue]
  have hperm : (g'.permits.map Permit.ticket).Perm (g.permits.map Permit.ticket) := by
    rw [← htickets, ← htickets']
    exact (List.perm_ext_iff_of_nodup h.sound.distinct hsound.distinct).2 fun ticket =>
      h.known ticket List.not_mem_nil
  have hweights : (fun ticket => g'.clampWeight (asked ticket)) =
      fun ticket => g.clampWeight (asked ticket) :=
    funext fun ticket => clampWeight_of_capacity h.capacity _
  rw [h.sound.free_eq (h.queue_eq_nil hqueue), hsound.free_eq hqueue, h.sound.unitsHeld_eq,
    hsound.unitsHeld_eq, hweights, h.capacity, (hperm.map _).sum_eq]

/-- A request for one unit is answered now: by a unit, or because the gate is closed. -/
def Ready (g : Gate) : Prop := g.closed = true ∨ 0 < g.free

theorem Moves.ready (h : Moves asked [] g g') (hsound : g.Sound asked) (hready : g.Ready) :
    g'.Ready := by
  rcases hready with hclosed | hfree
  · exact .inl (h.closed.trans hclosed)
  · refine .inr ?_
    rw [h.free_eq hsound (hsound.queue_eq_nil hfree)]
    exact hfree

theorem Sound.moves_acquire (h : g.Sound asked) (hnew : ticket ∉ g.tickets) :
    Moves asked [ticket] g (g.acquire ticket (asked ticket)) where
  sound := h.acquire hnew
  capacity := g.acquire_capacity ticket _
  closed := g.closed_acquire ticket _
  known := by
    intro other hnot
    rcases h.tickets_acquire ticket (asked ticket) with hsame | hmore
    · rw [hsame]
    · rw [hmore, List.mem_append, or_iff_left hnot]
  holds := fun other _ hholds => holds_acquire hholds

theorem Sound.moves_drop (h : g.Sound asked) (ticket : Nat) :
    Moves asked [ticket] g (g.drop ticket) where
  sound := h.drop ticket
  capacity := rfl
  closed := rfl
  known := fun _ hnot =>
    mem_tickets_drop.trans (and_iff_left fun heq => hnot (heq ▸ List.mem_singleton_self _))
  holds := fun _ hnot hholds =>
    holds_drop_of_ne hholds fun heq => hnot (heq ▸ List.mem_singleton_self _)

/-- Several give up one after the other. -/
theorem Sound.moves_foldl_drop {α : Type} (h : g.Sound asked) (ticketOf : α → Nat) (l : List α) :
    Moves asked (l.map ticketOf) g (l.foldl (fun g a => g.drop (ticketOf a)) g) := by
  induction l generalizing g with
  | nil => exact .refl h
  | cons a rest ih =>
    have hfirst : Moves asked ((a :: rest).map ticketOf) g (g.drop (ticketOf a)) :=
      (h.moves_drop (ticketOf a)).mono (by simp)
    exact hfirst.trans ((ih hfirst.sound).mono (List.subset_cons_self _ _))

end Moves

end Gate

end QueryCache
