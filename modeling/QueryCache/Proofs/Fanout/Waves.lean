import QueryCache.Proofs.Fanout.Progress
import QueryCache.Proofs.Gate.Line

/-!
# Runs in waves

Actions that all take the same time and have a gate for themselves run in waves. As many as the gate
has units begin together and are ready together; then they act in their order, and their units go to
as many of those that stand in line behind them. So a run takes as long as its waves. If the
deadline comes before the last wave is ready, or at the same moment, the actions of the earlier
waves have acted, and no other.

## Main definitions

* `Action.applyAll`, `World.callAll` : what actions leave behind, and what calls do.
* `Flight.staged`, `Flight.fleet` : flights at one stage, and flights in the midst of a run.
* `Flight.Queued` : flights that have the gate for themselves.

## Main results

* `Flight.Queued.pollAll_fleet` : what a look does when a wave is ready.
* `World.fly_waves`, `World.fly_waves_timeout` : runs with enough time, and without.
* `World.fanOut_waves`, `World.fanOut_waves_timeout` : the same from the beginning.
* `World.guardedAll_waves`, `World.guardedAll_waves_timeout` : the same of calls.
-/

namespace QueryCache

variable {σ β : Type}

/-- What actions leave behind, one after the other. -/
def Action.applyAll (actions : List (Action σ β)) (s : σ) : σ :=
  actions.foldl (fun s action => (action s).2) s

theorem Action.applyAll_append (before after : List (Action σ β)) (s : σ) :
    applyAll (before ++ after) s = applyAll after (applyAll before s) :=
  List.foldl_append

namespace Context

variable {c : Context} {ready now started deadline : Nat}

/-- The moment at which something happens while actions work: they are ready then, unless the
deadline comes first. -/
def next (c : Context) (ready : Nat) : Nat := c.deadline.elim ready (min ready)

theorem next_of_lt (h : ∀ deadline ∈ c.deadline, ready < deadline) : c.next ready = ready := by
  rw [next]
  cases hdeadline : c.deadline with
  | none => rfl
  | some deadline => exact Nat.min_eq_left (Nat.le_of_lt (h deadline hdeadline))

theorem next_of_le (hdeadline : c.deadline = some deadline) (h : deadline ≤ ready) :
    c.next ready = deadline := by
  rw [next, hdeadline]
  exact Nat.min_eq_right h

theorem verdict?_of_lt (hcancel : c.cancelAt = none) (h : ∀ deadline ∈ c.deadline, now < deadline) :
    c.verdict? started now = none :=
  verdict?_eq_none_iff.2 ⟨by simp [hcancel], h⟩

theorem verdict?_of_le (hcancel : c.cancelAt = none) (hdeadline : c.deadline = some deadline)
    (h : deadline ≤ now) : c.verdict? started now = some (.timeout (now - started)) :=
  verdict?_eq_timeout (by simp [hcancel]) hdeadline h

end Context

/-- The world when the first flights of a line have acted, as many as there are units, and the
others have moved up. -/
def World.pastWave (w : World σ) (capacity : Nat) (rest : List (Flight σ β)) : World σ :=
  { w with
    gate := .serving capacity ((rest.drop capacity).map Flight.ticket)
    store := Action.applyAll ((rest.take capacity).map Flight.action) w.store }

theorem World.applyAll_pastWave (w : World σ) (capacity n : Nat) (rest : List (Flight σ β)) :
    Action.applyAll (((rest.drop capacity).take n).map Flight.action)
        (w.pastWave capacity rest).store =
      Action.applyAll ((rest.take (capacity + n)).map Flight.action) w.store := by
  rw [pastWave, ← Action.applyAll_append, ← List.map_append, ← List.take_add]

namespace Flight

variable {capacity delay ready : Nat} {line : List Nat} {w w₁ w₂ : World σ}
  {f : Flight σ β} {flights before after before₁ after₁ : List (Flight σ β)}

/-! ### Flights at one stage -/

/-- Flights at one stage. -/
def staged (stage : Stage β) (flights : List (Flight σ β)) : List (Flight σ β) :=
  flights.map fun f => { f with stage := stage }

@[simp] theorem staged_append (stage : Stage β) (before after : List (Flight σ β)) :
    staged stage (before ++ after) = staged stage before ++ staged stage after :=
  List.map_append

theorem staged_eq_self {stage : Stage β} (h : ∀ f ∈ flights, f.stage = stage) :
    staged stage flights = flights := by
  refine (List.map_congr_left fun f hf => ?_).trans (List.map_id _)
  rw [← h f hf]
  rfl

theorem pollAll_append (hbefore : pollAll delay before w = (.ok before₁, w₁))
    (hafter : pollAll delay after w₁ = (.ok after₁, w₂)) :
    pollAll delay (before ++ after) w = (.ok (before₁ ++ after₁), w₂) := by
  induction before generalizing before₁ w with
  | nil =>
    cases hbefore
    exact hafter
  | cons f rest ih =>
    obtain ⟨f₁, w', others, hfirst, hothers, rfl⟩ := pollAll_cons_eq_ok.1 hbefore
    exact pollAll_cons_eq_ok.2 ⟨f₁, w', _, hfirst, ih hothers, rfl⟩

/-- Flights of which a look changes nothing but the stage. -/
theorem pollAll_staged {stage stage' : Stage β} (h : ∀ f ∈ flights,
      poll delay { f with stage := stage } w = (.ok { f with stage := stage' }, w)) :
    pollAll delay (staged stage flights) w = (.ok (staged stage' flights), w) := by
  induction flights with
  | nil => rfl
  | cons f rest ih =>
    obtain ⟨hf, hrest⟩ := List.forall_mem_cons.1 h
    exact pollAll_cons_eq_ok.2 ⟨_, _, _, hf, ih hrest, rfl⟩

theorem act_of_ok {result : β} (h : (f.action w.store).1 = .ok result) :
    f.act w = (.ok { f with stage := .finished result },
      { w with store := (f.action w.store).2, gate := w.gate.drop f.ticket }) := by
  rw [act]
  rcases hact : f.action w.store with ⟨reply, store⟩
  rw [hact] at h
  obtain rfl : reply = .ok result := h
  rfl

theorem pass_of_holds (hdelay : 1 ≤ delay) (h : w.gate.holds f.ticket = true) :
    f.pass delay w = (.ok { f with stage := .working (w.now + delay) }, w) := by
  rw [pass, if_pos h, if_neg (by omega)]

theorem pass_of_waits (hnot : ¬ w.gate.holds f.ticket = true) (h : w.gate.waits f.ticket = true) :
    f.pass delay w = (.ok { f with stage := .waiting }, w) := by
  rw [pass, if_neg hnot, if_pos h]

/-! ### A wave -/

/-- Flights whose actions have no result and always succeed. -/
def Succeed (flights : List (Flight σ Unit)) : Prop :=
  ∀ f ∈ flights, ∀ s, (f.action s).1 = .ok ()

/-- **A wave that is ready** acts in its order and leaves the line to those behind it. -/
theorem pollAll_working {flights : List (Flight σ Unit)} (delay : Nat) (hcapacity : 1 ≤ capacity)
    (hgate : w.gate = .serving capacity (flights.map Flight.ticket ++ line))
    (hdistinct : (flights.map Flight.ticket ++ line).Nodup) (hsucceed : Succeed flights) :
    pollAll delay (staged (.working w.now) flights) w = (.ok (staged (.finished ()) flights),
      { w with
        gate := .serving capacity line
        store := Action.applyAll (flights.map Flight.action) w.store }) := by
  -- each flight that acts stands at the head of the line, so dropping its ticket moves the line up
  induction flights generalizing w with
  | nil =>
    obtain ⟨now, gate, store⟩ := w
    obtain rfl : gate = .serving capacity line := hgate
    rfl
  | cons f rest ih =>
    obtain ⟨hnot, hrest⟩ := List.nodup_cons.1 hdistinct
    obtain ⟨hf, hothers⟩ := List.forall_mem_cons.1 hsucceed
    have hgate' : w.gate.drop f.ticket = .serving capacity (rest.map Flight.ticket ++ line) := by
      rw [hgate]
      exact Gate.drop_serving hcapacity hnot
    have hpoll : poll delay { f with stage := .working w.now } w =
        (.ok { f with stage := .finished () },
          { w with store := (f.action w.store).2, gate := w.gate.drop f.ticket }) := by
      have hact := act_of_ok (f := { f with stage := .working w.now }) (hf w.store)
      rw [poll]
      exact (if_pos (Nat.le_refl _)).trans hact
    have hothers := ih (w := { w with store := (f.action w.store).2, gate := w.gate.drop f.ticket })
      hgate' hrest hothers
    exact pollAll_cons_eq_ok.2 ⟨_, _, _, hpoll, hothers, rfl⟩

/-- **The first look** puts flights into the line; those for whom there is a unit begin. -/
theorem pollAll_idle (hdelay : 1 ≤ delay) (hgate : w.gate = .serving capacity line)
    (hdistinct : (line ++ flights.map Flight.ticket).Nodup) :
    pollAll delay (staged .idle flights) w =
      (.ok (staged (.working (w.now + delay)) (flights.take (capacity - line.length)) ++
          staged .waiting (flights.drop (capacity - line.length))),
        { w with gate := .serving capacity (line ++ flights.map Flight.ticket) }) := by
  -- with each flight the line is longer by one, and there is room for one less
  induction flights generalizing w line with
  | nil =>
    obtain ⟨now, gate, store⟩ := w
    obtain rfl : gate = .serving capacity line := hgate
    simp [staged, pollAll]
  | cons f rest ih =>
    have hgate' : w.gate.acquire f.ticket 1 = .serving capacity (line ++ [f.ticket]) := by
      rw [hgate, Gate.acquire_serving]
    have hlater : (line ++ [f.ticket] ++ rest.map Flight.ticket).Nodup := by
      simpa using hdistinct
    have hnot : f.ticket ∉ line := by
      intro hmem
      exact (List.nodup_append.1 hdistinct).2.2 _ hmem _ List.mem_cons_self rfl
    have hrest := ih (w := { w with gate := w.gate.acquire f.ticket 1 }) hgate' hlater
    rw [List.length_append, List.length_singleton, List.append_assoc] at hrest
    refine pollAll_cons_eq_ok.2 ?_
    by_cases hroom : line.length < capacity
    · obtain ⟨more, hmore⟩ : ∃ more, capacity - line.length = more + 1 :=
        ⟨capacity - line.length - 1, by omega⟩
      have hmore' : capacity - (line.length + 1) = more := by omega
      rw [hmore'] at hrest
      rw [hmore]
      refine ⟨_, _, _, pass_of_holds hdelay ?_, hrest, rfl⟩
      rw [hgate']
      exact (Gate.holds_serving_last hnot).2 hroom
    · have hnone : capacity - line.length = 0 := by omega
      have hnone' : capacity - (line.length + 1) = 0 := by omega
      rw [hnone'] at hrest
      rw [hnone]
      refine ⟨_, _, _, pass_of_waits ?_ ?_, hrest, rfl⟩
      · rw [hgate']
        exact mt (Gate.holds_serving_last hnot).1 hroom
      · rw [hgate']
        exact Gate.waits_serving_last (Nat.le_of_not_lt hroom)

/-- **A look at those who wait**: the first of the line begin, and the others go on waiting. -/
theorem pollAll_waiting (hdelay : 1 ≤ delay)
    (hgate : w.gate = .serving capacity (flights.map Flight.ticket))
    (hdistinct : (flights.map Flight.ticket).Nodup) :
    pollAll delay (staged .waiting flights) w =
      (.ok (staged (.working (w.now + delay)) (flights.take capacity) ++
        staged .waiting (flights.drop capacity)), w) := by
  have hgranted : pollAll delay (staged .waiting (flights.take capacity)) w =
      (.ok (staged (.working (w.now + delay)) (flights.take capacity)), w) := by
    refine pollAll_staged fun f hf => ?_
    have hmem : f.ticket ∈ (flights.map Flight.ticket).take capacity := by
      rw [← List.map_take]
      exact List.mem_map_of_mem hf
    refine pass_of_holds (f := { f with stage := .waiting }) hdelay ?_
    rw [hgate, Gate.holds_serving_iff]
    exact hmem
  have hwaiting : pollAll delay (staged .waiting (flights.drop capacity)) w =
      (.ok (staged .waiting (flights.drop capacity)), w) := by
    refine pollAll_staged fun f hf => ?_
    have hmem : f.ticket ∈ (flights.map Flight.ticket).drop capacity := by
      rw [← List.map_drop]
      exact List.mem_map_of_mem hf
    rw [← List.take_append_drop capacity (flights.map Flight.ticket)] at hdistinct
    refine pass_of_waits (f := { f with stage := .waiting }) ?_ ?_
    · rw [hgate, Gate.holds_serving_iff]
      exact fun htake => (List.nodup_append.1 hdistinct).2.2 _ htake _ hmem rfl
    · rw [hgate, Gate.waits_serving_iff]
      exact hmem
  have hall := pollAll_append hgranted hwaiting
  rwa [← staged_append, List.take_append_drop] at hall

/-! ### The fleet -/

/-- Flights in the midst of a run: some are finished, and of the others as many as the gate has
units work until the same moment, and those behind them wait. -/
def fleet (capacity ready : Nat) (done rest : List (Flight σ Unit)) : List (Flight σ Unit) :=
  staged (.finished ()) done ++
    (staged (.working ready) (rest.take capacity) ++ staged .waiting (rest.drop capacity))

/-- Flights that have a gate for themselves, in the order of the line, and whose actions always
succeed. -/
structure Queued (capacity : Nat) (rest : List (Flight σ Unit)) (g : Gate) : Prop where
  gate : g = .serving capacity (rest.map Flight.ticket)
  distinct : (rest.map Flight.ticket).Nodup
  succeed : Succeed rest

variable {done rest : List (Flight σ Unit)} {w : World σ}

theorem Queued.drop {g : Gate} (h : Queued capacity rest g) (n : Nat) :
    Queued capacity (rest.drop n) (.serving capacity ((rest.drop n).map Flight.ticket)) where
  gate := rfl
  distinct := by
    rw [List.map_drop]
    exact h.distinct.drop
  succeed := fun f hf => h.succeed f (List.mem_of_mem_drop hf)

/-- **A look when a wave is ready**: it acts, and those behind it move up. -/
theorem Queued.pollAll_fleet (h : Queued capacity rest w.gate) (hcapacity : 1 ≤ capacity)
    (hdelay : 1 ≤ delay) : pollAll delay (fleet capacity w.now done rest) w =
      (.ok (fleet capacity (w.now + delay) (done ++ rest.take capacity) (rest.drop capacity)),
        w.pastWave capacity rest) := by
  have hsplit : (rest.take capacity).map Flight.ticket ++ (rest.drop capacity).map Flight.ticket =
      rest.map Flight.ticket := by
    rw [← List.map_append, List.take_append_drop]
  have hfinished : pollAll delay (staged (.finished ()) done) w =
      (.ok (staged (.finished ()) done), w) := pollAll_staged fun f _ => rfl
  have hgate : w.gate = .serving capacity
      ((rest.take capacity).map Flight.ticket ++ (rest.drop capacity).map Flight.ticket) := by
    rw [hsplit, h.gate]
  have hdistinct : ((rest.take capacity).map Flight.ticket ++
      (rest.drop capacity).map Flight.ticket).Nodup := by
    rw [hsplit]
    exact h.distinct
  have hworking := pollAll_working delay hcapacity hgate hdistinct
    fun f hf => h.succeed f (List.mem_of_mem_take hf)
  have hbehind := pollAll_waiting (w := w.pastWave capacity rest) hdelay rfl
    (h.drop capacity).distinct
  rw [fleet, pollAll_append hfinished (pollAll_append hworking hbehind), fleet, staged_append,
    List.append_assoc]
  rfl

theorem results?_fleet_nil :
    results? (fleet capacity ready done []) = some (done.map fun _ => ()) := by
  rw [results?, mapM_eq_some_iff, fleet, List.take_nil, List.drop_nil]
  simp only [staged, List.map_nil, List.append_nil, List.forall₂_map_left_iff,
    List.forall₂_map_right_iff]
  exact List.forall₂_same.2 fun f _ => rfl

theorem working_mem_fleet (ready : Nat) (done : List (Flight σ Unit)) (hcapacity : 1 ≤ capacity)
    (hrest : rest ≠ []) :
    ∃ f ∈ fleet capacity ready done rest, f.stage = .working ready := by
  obtain ⟨f, others, rfl⟩ := List.exists_cons_of_ne_nil hrest
  obtain ⟨more, rfl⟩ := Nat.exists_eq_add_of_le' hcapacity
  refine ⟨{ f with stage := .working ready }, ?_, rfl⟩
  exact List.mem_append_right _ (List.mem_append_left _ List.mem_cons_self)

theorem results?_fleet (ready : Nat) (done : List (Flight σ Unit)) (hcapacity : 1 ≤ capacity)
    (hrest : rest ≠ []) :
    results? (fleet capacity ready done rest) = none := by
  obtain ⟨f, hf, hworking⟩ := working_mem_fleet ready done hcapacity hrest
  rw [Option.eq_none_iff_forall_ne_some]
  intro results hresults
  obtain ⟨result, -, hresult⟩ := exists_mem_of_forall₂ (mapM_eq_some_iff.1 hresults).flip hf
  rw [hworking] at hresult
  cases hresult

/-- Of the flights in a fleet, those that work are ready together. -/
theorem ready_of_mem_fleet {f : Flight σ Unit} {moment : Nat}
    (hf : f ∈ fleet capacity ready done rest) (h : f.stage.ready? = some moment) :
    moment = ready := by
  rw [fleet, List.mem_append, List.mem_append] at hf
  rcases hf with hf | hf | hf <;> obtain ⟨_, -, rfl⟩ := List.mem_map.1 hf <;> cases h
  rfl

theorem nextMoment?_fleet {context : Context} (ready : Nat) (done : List (Flight σ Unit))
    (hcancel : context.cancelAt = none) (hcapacity : 1 ≤ capacity) (hrest : rest ≠ []) :
    nextMoment? context (fleet capacity ready done rest) = some (context.next ready) := by
  obtain ⟨f, hf, hworking⟩ := working_mem_fleet ready done hcapacity hrest
  have hready : ready ∈ (fleet capacity ready done rest).filterMap fun f => f.stage.ready? :=
    List.mem_filterMap.2 ⟨f, hf, by rw [hworking]; rfl⟩
  have honly : ∀ moment ∈ (fleet capacity ready done rest).filterMap fun f => f.stage.ready?,
      moment = ready := by
    intro moment hmoment
    obtain ⟨f, hf, hstage⟩ := List.mem_filterMap.1 hmoment
    exact ready_of_mem_fleet hf hstage
  rw [nextMoment?, hcancel, Context.next, List.min?_eq_some_iff]
  cases context.deadline with
  | none => exact ⟨hready, fun moment hmoment => (honly moment hmoment).ge⟩
  | some deadline =>
    refine ⟨?_, fun moment hmoment => ?_⟩
    · rcases Nat.le_total ready deadline with hle | hle
      · rw [Option.elim, Nat.min_eq_left hle]
        exact List.mem_append_right _ hready
      · rw [Option.elim, Nat.min_eq_right hle]
        exact List.mem_append_left _ (List.mem_singleton_self _)
    · rcases List.mem_append.1 hmoment with hlimit | hmoment
      · obtain rfl : moment = deadline := List.mem_singleton.1 hlimit
        exact Nat.min_le_right _ _
      · rw [honly moment hmoment]
        exact Nat.min_le_left _ _

end Flight

namespace World

open Flight

variable {context : Context} {capacity started delay fuel deadline k t : Nat} {w : World σ}
  {done rest : List (Flight σ Unit)}

/-! ### Runs -/

/-- **A wave** that is not the last one. -/
theorem fly_wave (h : Queued capacity rest w.gate) (hcapacity : 1 ≤ capacity) (hdelay : 1 ≤ delay)
    (hcancel : context.cancelAt = none) (hlive : ∀ deadline ∈ context.deadline, w.now < deadline)
    (hmore : capacity < rest.length) :
    fly context started delay (fuel + 1) (fleet capacity w.now done rest) w =
      fly context started delay fuel
        (fleet capacity (w.now + delay) (done ++ rest.take capacity) (rest.drop capacity))
        { w.pastWave capacity rest with now := context.next (w.now + delay) } := by
  have hrest : rest.drop capacity ≠ [] := by
    rw [← List.length_pos_iff, List.length_drop]
    omega
  rw [fly]
  simp only [Context.verdict?_of_lt hcancel hlive, h.pollAll_fleet hcapacity hdelay,
    results?_fleet _ _ hcapacity hrest, nextMoment?_fleet _ _ hcancel hcapacity hrest]

/-- **The last wave.** -/
theorem fly_last_wave (h : Queued capacity rest w.gate) (hcapacity : 1 ≤ capacity)
    (hdelay : 1 ≤ delay) (hcancel : context.cancelAt = none)
    (hlive : ∀ deadline ∈ context.deadline, w.now < deadline) (hlast : rest.length ≤ capacity) :
    ∃ results, fly context started delay (fuel + 1) (fleet capacity w.now done rest) w =
      (some (.ok results), { w with
        gate := .serving capacity []
        store := Action.applyAll (rest.map Flight.action) w.store }) := by
  rw [fly]
  simp only [Context.verdict?_of_lt hcancel hlive, h.pollAll_fleet hcapacity hdelay,
    World.pastWave, List.drop_of_length_le hlast, List.take_of_length_le hlast, results?_fleet_nil]
  exact ⟨_, rfl⟩

/-- **A run with enough time** ends with its last wave. -/
theorem fly_waves (started fuel : Nat) (done : List (Flight σ Unit))
    (h : Queued capacity rest w.gate) (hcapacity : 1 ≤ capacity) (hdelay : 1 ≤ delay)
    (hcancel : context.cancelAt = none) (hfuel : k < fuel)
    (hlower : k * capacity < rest.length) (hupper : rest.length ≤ (k + 1) * capacity)
    (hlive : ∀ deadline ∈ context.deadline, w.now + k * delay < deadline) :
    ∃ results, fly context started delay fuel (fleet capacity w.now done rest) w =
      (some (.ok results), { w with
        now := w.now + k * delay
        gate := .serving capacity []
        store := Action.applyAll (rest.map Flight.action) w.store }) := by
  -- the clock stands at the moment when the first of `k + 1` waves is ready
  induction k generalizing done rest w fuel with
  | zero =>
    obtain ⟨fuel, rfl⟩ := Nat.exists_eq_succ_of_ne_zero (Nat.ne_zero_of_lt hfuel)
    rw [Nat.zero_mul, Nat.add_zero] at hlive ⊢
    rw [Nat.zero_add, Nat.one_mul] at hupper
    exact fly_last_wave h hcapacity hdelay hcancel hlive hupper
  | succ k ih =>
    obtain ⟨fuel, rfl⟩ := Nat.exists_eq_succ_of_ne_zero (Nat.ne_zero_of_lt hfuel)
    rw [Nat.succ_mul] at hlower hupper
    have htime : w.now + (k + 1) * delay = w.now + delay + k * delay := by
      rw [Nat.succ_mul]
      omega
    rw [htime] at hlive ⊢
    have hnext : context.next (w.now + delay) = w.now + delay :=
      Context.next_of_lt fun deadline hdeadline =>
        Nat.lt_of_le_of_lt (Nat.le_add_right _ _) (hlive deadline hdeadline)
    have hnow : ∀ deadline ∈ context.deadline, w.now < deadline := fun deadline hdeadline =>
      Nat.lt_of_le_of_lt (Nat.le_add_right _ (delay + k * delay))
        (Nat.add_assoc .. ▸ hlive deadline hdeadline)
    rw [fly_wave h hcapacity hdelay hcancel hnow (by omega), hnext]
    obtain ⟨results, hrun⟩ := ih (w := { w.pastWave capacity rest with now := w.now + delay })
      fuel (done ++ rest.take capacity) (h.drop capacity) (by omega)
      (by rw [List.length_drop]; omega) (by rw [List.length_drop]; omega) hlive
    have hstore := w.applyAll_pastWave capacity rest.length rest
    rw [List.take_of_length_le (by rw [List.length_drop]; omega),
      List.take_of_length_le (Nat.le_add_left _ _)] at hstore
    refine ⟨results, hrun.trans ?_⟩
    rw [← hstore]
    rfl

/-- **A run without enough time** ends at the deadline, after the waves that were ready before. -/
theorem fly_waves_timeout (started fuel : Nat) (done : List (Flight σ Unit))
    (h : Queued capacity rest w.gate) (hcapacity : 1 ≤ capacity) (hdelay : 1 ≤ delay)
    (hcancel : context.cancelAt = none)
    (hdeadline : context.deadline = some deadline) (hfuel : k < fuel)
    (hlower : k * capacity < rest.length) (hbefore : ∀ j < k, t + j * delay < deadline)
    (hafter : deadline ≤ t + k * delay) (hnow : w.now = context.next t) :
    ∃ gate, fly context started delay fuel (fleet capacity t done rest) w =
      (some (.error (.timeout (deadline - started))), { w with
        now := deadline
        gate := gate
        store := Action.applyAll ((rest.take (k * capacity)).map Flight.action) w.store }) := by
  -- `k` waves are ready before the deadline, and the next one, which is ready at `t + k * delay`,
  -- is not; so the last step of the clock is cut short by the deadline
  induction k generalizing done rest w fuel t with
  | zero =>
    obtain ⟨fuel, rfl⟩ := Nat.exists_eq_succ_of_ne_zero (Nat.ne_zero_of_lt hfuel)
    rw [Nat.zero_mul, Nat.add_zero] at hafter
    rw [Context.next_of_le hdeadline hafter] at hnow
    rw [fly]
    simp only [Context.verdict?_of_le hcancel hdeadline (Nat.le_of_eq hnow.symm), Nat.zero_mul,
      List.take_zero]
    subst hnow
    exact ⟨_, rfl⟩
  | succ k ih =>
    obtain ⟨fuel, rfl⟩ := Nat.exists_eq_succ_of_ne_zero (Nat.ne_zero_of_lt hfuel)
    rw [Nat.succ_mul] at hlower hafter
    have hlive : ∀ deadline ∈ context.deadline, t < deadline := by
      intro deadline' hdeadline'
      obtain rfl : deadline = deadline' := Option.some.inj (hdeadline.symm.trans hdeadline')
      have hfirst := hbefore 0 (Nat.succ_pos k)
      rwa [Nat.zero_mul, Nat.add_zero] at hfirst
    rw [Context.next_of_lt hlive] at hnow
    subst hnow
    rw [fly_wave h hcapacity hdelay hcancel hlive (by omega)]
    have hlater : ∀ j < k, w.now + delay + j * delay < deadline := by
      intro j hj
      have hlate := hbefore (j + 1) (Nat.succ_lt_succ hj)
      rw [Nat.succ_mul] at hlate
      omega
    obtain ⟨gate, hrun⟩ := ih (t := w.now + delay)
      (w := { w.pastWave capacity rest with now := context.next (w.now + delay) })
      fuel (done ++ rest.take capacity) (h.drop capacity) (by omega)
      (by rw [List.length_drop]; omega) hlater (by omega) rfl
    refine ⟨gate, hrun.trans ?_⟩
    rw [Nat.succ_mul, Nat.add_comm (k * capacity), ← w.applyAll_pastWave]
    rfl

/-! ### From the beginning -/

section FanOut

variable [CacheStore σ] {actions : List (Action σ Unit)}

/-- **Actions begin** at a vacant gate: all are in the line, and the first wave is under way. -/
theorem fanOut_begins (hvacant : w.gate.Vacant) (hdelay : 1 ≤ CacheStore.delay w.store)
    (hcancel : context.cancelAt = none) (hlive : ∀ deadline ∈ context.deadline, w.now < deadline)
    (hsome : actions ≠ []) (hsucceed : ∀ action ∈ actions, ∀ s, (action s).1 = .ok ()) :
    ∃ gate, Queued w.gate.capacity (w.flightsOf actions) gate ∧
      w.fanOut context actions = fly context w.now (CacheStore.delay w.store) (actions.length + 1)
        (fleet w.gate.capacity (w.now + CacheStore.delay w.store) [] (w.flightsOf actions))
        { w with
          now := context.next (w.now + CacheStore.delay w.store)
          gate := gate
          nextTicket := w.nextTicket + actions.length } := by
  have hactions : (w.flightsOf actions).map Flight.action = actions := action_flightsOf actions
  have hne : w.flightsOf actions ≠ [] := by
    intro hnil
    rw [hnil] at hactions
    exact hsome hactions.symm
  have hdistinct : ([] ++ (w.flightsOf actions).map Flight.ticket).Nodup := by
    rw [tickets_flightsOf]
    exact List.nodup_range'
  have hfirst := pollAll_idle (w := { w with nextTicket := w.nextTicket + actions.length }) hdelay
    hvacant.eq_serving hdistinct
  rw [staged_eq_self fun f hf => idle_of_mem_flightsOf hf] at hfirst
  refine ⟨.serving w.gate.capacity ((w.flightsOf actions).map Flight.ticket),
    ⟨rfl, hdistinct, ?_⟩, ?_⟩
  · intro f hf
    refine hsucceed f.action ?_
    rw [← hactions]
    exact List.mem_map_of_mem hf
  · have hbegun : pollAll (CacheStore.delay w.store) (w.flightsOf actions)
        { w with nextTicket := w.nextTicket + actions.length } =
        (.ok (fleet w.gate.capacity (w.now + CacheStore.delay w.store) [] (w.flightsOf actions)),
          { w with
            gate := .serving w.gate.capacity ((w.flightsOf actions).map Flight.ticket)
            nextTicket := w.nextTicket + actions.length }) := hfirst
    rw [fanOut, fly]
    simp only [Context.verdict?_of_lt hcancel hlive, hbegun,
      results?_fleet _ _ hvacant.one_le_capacity hne,
      nextMoment?_fleet _ _ hcancel hvacant.one_le_capacity hne]

/-- **Actions with enough time** take as long as their waves. -/
theorem fanOut_waves (hvacant : w.gate.Vacant) (hdelay : 1 ≤ CacheStore.delay w.store)
    (hcancel : context.cancelAt = none)
    (hsucceed : ∀ action ∈ actions, ∀ s, (action s).1 = .ok ())
    (hlower : k * w.gate.capacity < actions.length)
    (hupper : actions.length ≤ (k + 1) * w.gate.capacity)
    (hlive : ∀ deadline ∈ context.deadline,
      w.now + (k + 1) * CacheStore.delay w.store < deadline) :
    ∃ results, w.fanOut context actions = (some (.ok results), { w with
      now := w.now + (k + 1) * CacheStore.delay w.store
      nextTicket := w.nextTicket + actions.length
      store := Action.applyAll actions w.store }) := by
  have hne : actions ≠ [] := by
    rintro rfl
    cases hlower
  have htime : w.now + (k + 1) * CacheStore.delay w.store =
      w.now + CacheStore.delay w.store + k * CacheStore.delay w.store := by
    rw [Nat.succ_mul]
    omega
  rw [htime] at hlive ⊢
  have hsoon : ∀ deadline ∈ context.deadline, w.now + CacheStore.delay w.store < deadline :=
    fun deadline hdeadline => Nat.lt_of_le_of_lt (Nat.le_add_right _ _) (hlive deadline hdeadline)
  have hnow : ∀ deadline ∈ context.deadline, w.now < deadline :=
    fun deadline hdeadline => Nat.lt_of_le_of_lt (Nat.le_add_right _ _) (hsoon deadline hdeadline)
  have hlength : (w.flightsOf actions).length = actions.length := by simp [flightsOf]
  have hfuel : k < actions.length + 1 := by
    have hle := Nat.le_mul_of_pos_right k hvacant.one_le_capacity
    omega
  obtain ⟨gate, hqueued, hbegins⟩ := fanOut_begins hvacant hdelay hcancel hnow hne hsucceed
  rw [hbegins, Context.next_of_lt hsoon]
  obtain ⟨results, hrun⟩ := fly_waves (w := { w with
      now := w.now + CacheStore.delay w.store
      gate := gate
      nextTicket := w.nextTicket + actions.length }) w.now _ [] hqueued
    hvacant.one_le_capacity hdelay hcancel hfuel (by rwa [hlength]) (by rwa [hlength]) hlive
  refine ⟨results, hrun.trans ?_⟩
  rw [action_flightsOf, ← hvacant.eq_serving]

/-- **Actions without enough time**: at the deadline those have acted whose waves were ready
before. -/
theorem fanOut_waves_timeout (hvacant : w.gate.Vacant) (hdelay : 1 ≤ CacheStore.delay w.store)
    (hcancel : context.cancelAt = none)
    (hsucceed : ∀ action ∈ actions, ∀ s, (action s).1 = .ok ())
    (hlower : k * w.gate.capacity < actions.length) (hdeadline : context.deadline = some deadline)
    (hbefore : w.now + k * CacheStore.delay w.store < deadline)
    (hafter : deadline ≤ w.now + (k + 1) * CacheStore.delay w.store) :
    w.fanOut context actions = (some (.error (.timeout (deadline - w.now))), { w with
      now := deadline
      nextTicket := w.nextTicket + actions.length
      store := Action.applyAll (actions.take (k * w.gate.capacity)) w.store }) := by
  have hne : actions ≠ [] := by
    rintro rfl
    cases hlower
  have hlive : ∀ deadline ∈ context.deadline, w.now < deadline := by
    intro deadline' hdeadline'
    obtain rfl : deadline = deadline' := Option.some.inj (hdeadline.symm.trans hdeadline')
    exact Nat.lt_of_le_of_lt (Nat.le_add_right _ _) hbefore
  have hlength : (w.flightsOf actions).length = actions.length := by simp [flightsOf]
  have hfuel : k < actions.length + 1 := by
    have hle := Nat.le_mul_of_pos_right k hvacant.one_le_capacity
    omega
  have hearlier : ∀ j < k, w.now + CacheStore.delay w.store + j * CacheStore.delay w.store <
      deadline := by
    intro j hj
    have hle := Nat.mul_le_mul_right (CacheStore.delay w.store) (Nat.succ_le_of_lt hj)
    rw [Nat.succ_mul] at hle
    omega
  have hlate : deadline ≤
      w.now + CacheStore.delay w.store + k * CacheStore.delay w.store := by
    rw [Nat.succ_mul] at hafter
    omega
  obtain ⟨gate, hqueued, hbegins⟩ := fanOut_begins hvacant hdelay hcancel hlive hne hsucceed
  obtain ⟨gate', hrun⟩ := fly_waves_timeout (w := { w with
      now := context.next (w.now + CacheStore.delay w.store)
      gate := gate
      nextTicket := w.nextTicket + actions.length }) w.now _ [] hqueued
    hvacant.one_le_capacity hdelay hcancel hdeadline hfuel (by rwa [hlength]) hearlier hlate rfl
  rw [List.map_take, action_flightsOf] at hrun
  -- what the run does to the gate follows from its books
  have hfan := hbegins.trans hrun
  have hgate : gate' = w.gate := hvacant.eq_of_moves (hvacant.idle.sound_world.fanOut hfan).gate
  rw [hfan, hgate]

/-! ### Calls -/

/-- What calls leave behind on a store, one after the other, whatever it answers. -/
def callAll (calls : List Call) (s : σ) : σ := calls.foldl (fun s c => (CacheStore.call c s).2) s

theorem acting_snd (c : Call) (s : σ) : (acting c s).2 = (CacheStore.call c s).2 := by
  rw [acting]
  split
  next hcall => rw [hcall]
  next hcall => rw [hcall]

theorem applyAll_acting (calls : List Call) (s : σ) :
    Action.applyAll (calls.map acting) s = callAll calls s := by
  rw [Action.applyAll, List.foldl_map, callAll]
  simp only [acting_snd]

theorem acting_succeeds {calls : List Call}
    (h : ∀ c ∈ calls, ∀ s : σ, ∃ reply, (CacheStore.call c s).1 = .ok reply) :
    ∀ action ∈ calls.map acting, ∀ s : σ, (action s).1 = .ok () := by
  refine List.forall_mem_map.2 fun c hc s => ?_
  obtain ⟨reply, hreply⟩ := h c hc s
  rw [acting]
  split
  · rfl
  next e s' hcall =>
    rw [hcall] at hreply
    cases hreply

variable {calls : List Call}

/-- **Calls with enough time** take as long as their waves. -/
theorem guardedAll_waves (hvacant : w.gate.Vacant) (hdelay : 1 ≤ CacheStore.delay w.store)
    (hcancel : context.cancelAt = none)
    (hanswers : ∀ c ∈ calls, ∀ s : σ, ∃ reply, (CacheStore.call c s).1 = .ok reply)
    (hlower : k * w.gate.capacity < calls.length)
    (hupper : calls.length ≤ (k + 1) * w.gate.capacity)
    (hlive : ∀ deadline ∈ context.deadline,
      w.now + (k + 1) * CacheStore.delay w.store < deadline) :
    w.guardedAll context calls = (some (.ok ()), { w with
      now := w.now + (k + 1) * CacheStore.delay w.store
      nextTicket := w.nextTicket + calls.length
      store := callAll calls w.store }) := by
  have hlength : (calls.map (acting (σ := σ))).length = calls.length := List.length_map _
  obtain ⟨results, hfan⟩ := fanOut_waves hvacant hdelay hcancel (acting_succeeds hanswers)
    (by rwa [hlength]) (by rwa [hlength]) hlive
  rw [applyAll_acting, hlength] at hfan
  cases calls with
  | nil => cases hlower
  | cons c rest => rw [guardedAll_cons, hfan]

/-- **Calls without enough time**: at the deadline those have been made whose waves were ready
before. -/
theorem guardedAll_waves_timeout (hvacant : w.gate.Vacant) (hdelay : 1 ≤ CacheStore.delay w.store)
    (hcancel : context.cancelAt = none)
    (hanswers : ∀ c ∈ calls, ∀ s : σ, ∃ reply, (CacheStore.call c s).1 = .ok reply)
    (hlower : k * w.gate.capacity < calls.length) (hdeadline : context.deadline = some deadline)
    (hbefore : w.now + k * CacheStore.delay w.store < deadline)
    (hafter : deadline ≤ w.now + (k + 1) * CacheStore.delay w.store) :
    w.guardedAll context calls = (some (.error (.timeout (deadline - w.now))), { w with
      now := deadline
      nextTicket := w.nextTicket + calls.length
      store := callAll (calls.take (k * w.gate.capacity)) w.store }) := by
  have hlength : (calls.map (acting (σ := σ))).length = calls.length := List.length_map _
  have hfan := fanOut_waves_timeout hvacant hdelay hcancel (acting_succeeds hanswers)
    (by rwa [hlength]) hdeadline hbefore hafter
  rw [← List.map_take, applyAll_acting, hlength] at hfan
  cases calls with
  | nil => cases hlower
  | cons c rest => rw [guardedAll_cons, hfan]

/-- A single call with enough time, to set a value. -/
theorem guarded_set_wave (key : String) (value : ByteArray) (hvacant : w.gate.Vacant)
    (hdelay : 1 ≤ CacheStore.delay w.store) (hcancel : context.cancelAt = none)
    (hanswers : ∀ s : σ, (CacheStore.call (.set key value) s).1 = .ok ())
    (hlive : ∀ deadline ∈ context.deadline, w.now + CacheStore.delay w.store < deadline) :
    w.guarded context (.set key value) = (some (.ok ()), { w with
      now := w.now + CacheStore.delay w.store
      nextTicket := w.nextTicket + 1
      store := (CacheStore.call (.set key value) w.store).2 }) := by
  have hone : (0 + 1) * CacheStore.delay w.store = CacheStore.delay w.store := by
    rw [Nat.zero_add, Nat.one_mul]
  have hcapacity := hvacant.one_le_capacity
  have hsucceed : ∀ action ∈ ([CacheStore.call (.set key value)] : List (Action σ Unit)),
      ∀ s, (action s).1 = .ok () := List.forall_mem_singleton.2 hanswers
  obtain ⟨results, hfan⟩ := fanOut_waves (k := 0) hvacant hdelay hcancel hsucceed (by simp)
    (by simpa using hcapacity) (by rwa [hone])
  rw [hone] at hfan
  obtain ⟨-, -, -, hlength, -⟩ := fanOut_ok hfan
  cases results with
  | nil => cases hlength
  | cons reply others => rw [guarded, hfan]; rfl

end FanOut

end World

end QueryCache
