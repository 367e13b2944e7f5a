import QueryCache.Proofs.Fanout.Limits
import QueryCache.Proofs.Job.Course
import QueryCache.Proofs.Session

/-!
# What the gate guards is a job

A call that is guarded by the gate asks for one unit, lets the delay of the store pass and then
acts. A request for units that are held asks for them and keeps its permit. The clock of both moves
straight to the next moment at which something can happen; a job is looked at in every millisecond.
Nothing happens in between, so they come to the same end.

## Main definitions

* `Job.ofAction`, `Job.ofRequest` : an action on the store and a request for units as jobs.
* `Job.Gives` : a job that is alone at the gate comes to an end, or waits for ever.

## Main results

* `Job.gives_of_waiting`, `Job.gives_of_limit` : a job that waits alone.
* `World.Sound.guarded_gives` : a guarded call is a job.
* `Session.hold_gives` : so is a request for units that are held.
-/

namespace QueryCache

variable {σ β : Type}

/-- An action on the store that needs one unit of the gate, and is made when a delay has passed. Its
point is the moment at which it is ready. -/
def Job.ofAction (ticket delay : Nat) (action : σ → Except CacheError β × σ) :
    Job σ (Option Nat) β where
  ticket := ticket
  weight := 1
  start := none
  step now point store :=
    let ready := point.getD (now + delay)
    if ready ≤ now then
      let (result, store) := action store
      (.inr result, store)
    else (.inl (some ready), store)

/-- A request for units that are kept when they have been granted. -/
def Job.ofRequest (ticket weight : Nat) : Job σ Unit Unit where
  ticket := ticket
  weight := weight
  start := ()
  step _ _ store := (.inr (.ok ()), store)
  keeps := true

/-- A job that nobody else is in the way of ends with the given result, or it waits for ever. -/
def Job.Gives {τ : Type} (job : Job σ τ β) (context : Context) (started : Nat) (x : Shared σ) :
    Option (Except CacheError β) × World σ → Prop
  | (some result, w) =>
    ∃ n, job.run context started .nobody x n = ⟨⟨w.gate, w.store⟩, .ended w.now result⟩
  | (none, w) => ∀ n, job.run context started .nobody x (n + 1) = ⟨⟨w.gate, w.store⟩, .waiting⟩

namespace Context

variable {c : Context} {started now moment limit : Nat}

/-- A limit of a context that has not stopped work is later than now. -/
theorem lt_of_limit (h : c.verdict? started now = none)
    (hlimit : limit ∈ c.cancelAt ∨ limit ∈ c.deadline) : now < limit := by
  obtain ⟨hcancel, hdeadline⟩ := verdict?_eq_none_iff.1 h
  exact hlimit.elim (hcancel limit) (hdeadline limit)

/-- A context stops nothing before its limits. -/
theorem verdict?_of_lt_limits (hcancels : ∀ t ∈ c.cancelAt, moment ≤ t)
    (hdeadlines : ∀ t ∈ c.deadline, moment ≤ t) (h : now < moment) :
    c.verdict? started now = none :=
  verdict?_eq_none_iff.2
    ⟨fun t ht => h.trans_le (hcancels t ht), fun t ht => h.trans_le (hdeadlines t ht)⟩

end Context

namespace Job

variable {τ : Type} {job : Job σ τ β} {context : Context} {started now moment n : Nat}
  {x : Shared σ} {s : State σ τ β} {w : World σ} {e : CacheError}

/-! ### At the gate -/

theorem pass_of_holds (h : s.gate.holds job.ticket = true) :
    job.pass now s = job.advance now job.start s :=
  if_pos h

theorem pass_of_waits (hnot : ¬ s.gate.holds job.ticket = true)
    (h : s.gate.waits job.ticket = true) : job.pass now s = { s with stage := .waiting } :=
  (if_neg hnot).trans (if_pos h)

theorem pass_of_refused (hnot : ¬ s.gate.holds job.ticket = true)
    (hnever : ¬ s.gate.waits job.ticket = true) :
    job.pass now s = job.finish now (.error .gateClosed) s :=
  (if_neg hnot).trans (if_neg hnever)

/-- A job that its context does not stop asks for its units at the first look. -/
theorem run_nobody_one (h : context.verdict? started started = none) :
    job.run context started .nobody x 1 =
      job.pass started ⟨⟨x.gate.acquire job.ticket job.weight, x.store⟩, .idle⟩ := by
  have hlook : job.look context started started ⟨x, .idle⟩ = _ := look_of_none (by simp) h
  exact hlook

/-- A job that its context stops at once has done nothing. -/
theorem run_nobody_dead (h : context.verdict? started started = some e) :
    job.run context started .nobody x 1 = ⟨x, .ended started (.error e)⟩ := by
  have hlook : job.look context started started ⟨x, .idle⟩ = _ := look_of_verdict (by simp) h
  exact hlook

/-! ### Alone -/

/-- Alone a job is looked at once in every millisecond. -/
theorem run_nobody_succ : job.run context started .nobody x (n + 1) =
    job.look context started (started + n) (job.run context started .nobody x n) := rfl

/-- A job stays as it is while looks at it change nothing. -/
theorem run_nobody_of_fixed (h : job.run context started .nobody x 1 = s) (k : Nat)
    (hfixed : ∀ t, started < t → t ≤ started + k → job.look context started t s = s) :
    job.run context started .nobody x (k + 1) = s := by
  induction k with
  | zero => exact h
  | succ k ih =>
    rw [run_nobody_succ, ih fun t hstarted ht => hfixed t hstarted (by omega)]
    exact hfixed (started + (k + 1)) (by omega) le_rfl

/-- The next look at which a job may change. -/
theorem exists_run_nobody {moment : Nat} (h : job.run context started .nobody x 1 = s)
    (hlt : started < moment)
    (hfixed : ∀ t, started < t → t < moment → job.look context started t s = s) :
    ∃ n, job.run context started .nobody x n = job.look context started moment s := by
  obtain ⟨k, rfl⟩ := Nat.exists_eq_add_of_lt hlt
  refine ⟨k + 1 + 1, ?_⟩
  rw [run_nobody_succ, run_nobody_of_fixed h k fun t hstarted ht => hfixed t hstarted (by omega)]
  rfl

/-- A job that the context stops on its way. -/
theorem gives_of_verdict (hrun : job.run context started .nobody x n =
      job.look context started moment s)
    (hopen : ∀ t result, s.stage ≠ .ended t result) (hbegun : s.stage ≠ .idle)
    (hstop : context.verdict? started moment = some e) :
    job.Gives context started x (some (.error e),
      { w with gate := s.gate.drop job.ticket, store := s.store, now := moment }) := by
  refine ⟨n, ?_⟩
  rw [hrun, look_of_verdict hopen hstop, giveUp]
  cases hstage : s.stage with
  | idle => exact (hbegun hstage).elim
  | _ => rfl

/-- A job that waits goes on waiting while nothing stops it. -/
theorem look_of_waits {y : Shared σ} (h : context.verdict? started now = none)
    (hholds : ¬ y.gate.holds job.ticket = true) (hwaits : y.gate.waits job.ticket = true) :
    job.look context started now ⟨y, .waiting⟩ = ⟨y, .waiting⟩ := by
  rw [look_of_none (by simp) h]
  exact pass_of_waits hholds hwaits

/-- **A job that waits alone** and has no limits waits for ever. -/
theorem gives_of_waiting
    (hfirst : job.run context started .nobody x 1 = ⟨⟨w.gate, w.store⟩, .waiting⟩)
    (hholds : ¬ w.gate.holds job.ticket = true) (hwaits : w.gate.waits job.ticket = true)
    (hcancel : context.cancelAt = none) (hdeadline : context.deadline = none) :
    job.Gives context started x (none, w) := fun n =>
  run_nobody_of_fixed hfirst n fun _ _ _ => look_of_waits
    (Context.verdict?_eq_none_iff.2 ⟨by simp [hcancel], by simp [hdeadline]⟩) hholds hwaits

/-- **A job that waits alone** is stopped at its first limit. -/
theorem gives_of_limit
    (hfirst : job.run context started .nobody x 1 = ⟨⟨w.gate, w.store⟩, .waiting⟩)
    (hholds : ¬ w.gate.holds job.ticket = true) (hwaits : w.gate.waits job.ticket = true)
    (hlater : started < moment) (hcancels : ∀ t ∈ context.cancelAt, moment ≤ t)
    (hdeadlines : ∀ t ∈ context.deadline, moment ≤ t)
    (hstop : context.verdict? started moment = some e) :
    job.Gives context started x
      (some (.error e), { w with gate := w.gate.drop job.ticket, now := moment }) := by
  obtain ⟨n, hrun⟩ := exists_run_nobody hfirst hlater fun t _ ht => look_of_waits
    (Context.verdict?_of_lt_limits hcancels hdeadlines ht) hholds hwaits
  exact gives_of_verdict hrun (by simp) (by simp) hstop

end Job

namespace Job

variable {ticket delay now : Nat} {action : σ → Except CacheError β × σ} {point : Option Nat}
  {result : Except CacheError β} {store : σ} {s : State σ (Option Nat) β}

/-- An action that is ready is made. -/
theorem advance_ofAction_of_le (hready : point.getD (now + delay) ≤ now)
    (hact : action s.store = (result, store)) :
    (ofAction ticket delay action).advance now point s =
      ⟨⟨s.gate.drop ticket, store⟩, .ended now result⟩ := by
  simp [advance, ofAction, hready, hact, finish]

/-- An action that is not ready is put off. -/
theorem advance_ofAction_of_lt (hearly : now < point.getD (now + delay)) :
    (ofAction ticket delay action).advance now point s =
      { s with stage := .working (some (point.getD (now + delay))) } := by
  simp [advance, ofAction, Nat.not_le.2 hearly]

end Job

/-- Until the next moment nothing stops a run, and no action is ready. -/
theorem Flight.le_of_nextMoment {context : Context} {flights : List (Flight σ β)} {moment : Nat}
    (h : nextMoment? context flights = some moment) :
    (∀ t ∈ context.cancelAt, moment ≤ t) ∧ (∀ t ∈ context.deadline, moment ≤ t) ∧
      ∀ f ∈ flights, ∀ ready, f.stage = .working ready → moment ≤ ready := by
  obtain ⟨-, hle⟩ := List.min?_eq_some_iff.1 h
  refine ⟨fun t ht => hle t ?_, fun t ht => hle t ?_, fun f hf ready hready => hle ready ?_⟩
  · simp [Option.mem_def.1 ht]
  · simp [Option.mem_def.1 ht]
  · refine List.mem_append_right _ (List.mem_filterMap.2 ⟨f, hf, ?_⟩)
    rw [hready]
    rfl

theorem Flight.unlimited_of_nextMoment {context : Context} {flights : List (Flight σ β)}
    (h : nextMoment? context flights = none) :
    context.cancelAt = none ∧ context.deadline = none := by
  rw [nextMoment?, List.min?_eq_none_iff] at h
  simp only [List.append_eq_nil_iff, Option.toList_eq_nil_iff] at h
  exact ⟨h.1.2, h.1.1⟩

/-- The next moment is later than now. -/
theorem Flight.lt_nextMoment {context : Context} {flights : List (Flight σ β)}
    {started now moment : Nat} (hverdict : context.verdict? started now = none)
    (hbusy : ∀ f ∈ flights, ∀ ready, f.stage = .working ready → now < ready)
    (h : nextMoment? context flights = some moment) : now < moment := by
  rcases List.mem_append.1 (List.min?_mem h) with hlimit | hready
  · refine Context.lt_of_limit hverdict ?_
    simpa [or_comm] using hlimit
  · obtain ⟨f, hf, hstage⟩ := List.mem_filterMap.1 hready
    cases hworking : f.stage with
    | working ready =>
      rw [hworking] at hstage
      cases hstage
      exact hbusy f hf moment hworking
    | idle | waiting | finished => simp [hworking, Stage.ready?] at hstage

namespace World

variable {context : Context} {started delay fuel ready moment : Nat} {w w' : World σ}
  {f : Flight σ β} {store : σ} {result : Except CacheError β} {e : CacheError}

/-- A single action that is made. -/
theorem fly_acts {v : World σ} (hverdict : context.verdict? started w.now = none)
    (hpoll : f.poll delay w = f.act v) (hact : f.action v.store = (result, store)) :
    fly context started delay (fuel + 1) [f] w =
      (some (result.map fun reply => [reply]),
        { v with store := store, gate := v.gate.drop f.ticket }) := by
  rw [fly]
  simp only [hverdict, Flight.pollAll, hpoll, Flight.act, hact]
  cases result with
  | error e => rfl
  | ok reply => rfl

/-- A single action that the gate turns away. -/
theorem fly_refused (hverdict : context.verdict? started w.now = none)
    (hpoll : f.poll delay w = (.error e, w')) :
    fly context started delay (fuel + 1) [f] w =
      (some (.error e), { w' with gate := w'.gate.drop f.ticket }) := by
  rw [fly]
  simp only [hverdict, Flight.pollAll, hpoll]
  rfl

/-- A single action that the context stops. -/
theorem fly_stopped (hverdict : context.verdict? started w.now = some e) :
    fly context started delay (fuel + 1) [f] w =
      (some (.error e), { w with gate := w.gate.drop f.ticket }) := by
  rw [fly]
  simp only [hverdict]
  rfl

/-- A single action that goes on at the next moment, if there is one. -/
theorem fly_goes {f' : Flight σ β} (hverdict : context.verdict? started w.now = none)
    (hpoll : f.poll delay w = (.ok f', w')) (hopen : f'.stage.result? = none) :
    (Flight.nextMoment? context [f'] = none →
      fly context started delay (fuel + 1) [f] w = (none, w')) ∧
    ∀ moment, Flight.nextMoment? context [f'] = some moment →
      fly context started delay (fuel + 1) [f] w =
        fly context started delay fuel [f'] { w' with now := moment } := by
  have hresults : Flight.results? [f'] = none := by simp [Flight.results?, hopen]
  rw [fly]
  simp only [hverdict, Flight.pollAll, hpoll, hresults]
  refine ⟨fun hnone => ?_, fun moment hmoment => ?_⟩
  · rw [hnone]
  · rw [hmoment]

variable {ticket : Nat} {action : σ → Except CacheError β × σ}

/-- The answer of a single action, as an answer of actions that run together. -/
def single (r : Option (Except CacheError β) × World σ) :
    Option (Except CacheError (List β)) × World σ :=
  (r.1.map fun result => result.map fun reply => [reply], r.2)

/-- **An action that works** is stopped or made at the next moment, as the job is. -/
theorem fly_working_gives {x : Shared σ} (hverdict : context.verdict? w.now w.now = none)
    (hlater : w.now < ready)
    (hfirst : (Job.ofAction ticket delay action).run context w.now .nobody x 1 =
      ⟨⟨w.gate, w.store⟩, .working (some ready)⟩)
    (hmoment : Flight.nextMoment? context [(⟨ticket, action, .working ready⟩ : Flight σ β)] =
      some moment) :
    ∃ r, fly context w.now delay (fuel + 1) [⟨ticket, action, .working ready⟩]
        { w with now := moment } = single r ∧
      (Job.ofAction ticket delay action).Gives context w.now x r := by
  obtain ⟨hcancels, hdeadlines, hready⟩ := Flight.le_of_nextMoment hmoment
  have hready := hready _ (List.mem_singleton_self _) _ rfl
  obtain ⟨n, hrun⟩ := Job.exists_run_nobody hfirst
    (Flight.lt_nextMoment hverdict (by simp [hlater]) hmoment) fun t _ ht => by
      rw [Job.look_of_none (by simp) (Context.verdict?_of_lt_limits hcancels hdeadlines ht)]
      exact Job.advance_ofAction_of_lt (ht.trans_le hready)
  cases hstop : context.verdict? w.now moment with
  | some e => exact ⟨_, fly_stopped hstop, Job.gives_of_verdict hrun (by simp) (by simp) hstop⟩
  | none =>
    -- Nothing stops it, so the moment is the one at which it is ready.
    have hle : ready ≤ moment := by
      rcases Flight.due_of_nextMoment w.now hmoment with hsome | ⟨f, hf, ready, hle, hstage⟩
      · simp [hstop] at hsome
      · rw [List.mem_singleton.1 hf] at hstage
        cases hstage
        exact hle
    rcases hact : action w.store with ⟨result, store⟩
    refine ⟨(some result, { w with store := store, gate := w.gate.drop ticket, now := moment }),
      fly_acts (v := { w with now := moment }) hstop (by simp [Flight.poll, hle]) hact, n, ?_⟩
    rw [hrun, Job.look_of_none (by simp) hstop]
    exact Job.advance_ofAction_of_le hle hact

/-- **An action that waits** for a unit is stopped at the next moment, or it waits for ever. -/
theorem fly_waiting_gives {x : Shared σ} (hverdict : context.verdict? w.now w.now = none)
    (hfirst : (Job.ofAction ticket delay action).run context w.now .nobody x 1 =
      ⟨⟨w.gate, w.store⟩, .waiting⟩)
    (hholds : ¬ w.gate.holds ticket = true) (hwaits : w.gate.waits ticket = true) :
    (Flight.nextMoment? context [(⟨ticket, action, .waiting⟩ : Flight σ β)] = none →
      (Job.ofAction ticket delay action).Gives context w.now x (none, w)) ∧
    ∀ moment, Flight.nextMoment? context [(⟨ticket, action, .waiting⟩ : Flight σ β)] = some moment →
      ∃ r, fly context w.now delay (fuel + 1) [⟨ticket, action, .waiting⟩]
          { w with now := moment } = single r ∧
        (Job.ofAction ticket delay action).Gives context w.now x r := by
  refine ⟨fun hmoment => ?_, fun moment hmoment => ?_⟩
  · obtain ⟨hcancel, hdeadline⟩ := Flight.unlimited_of_nextMoment hmoment
    exact Job.gives_of_waiting hfirst hholds hwaits hcancel hdeadline
  · obtain ⟨hcancels, hdeadlines, -⟩ := Flight.le_of_nextMoment hmoment
    -- Nothing but the context can make this the next moment.
    rcases Flight.due_of_nextMoment w.now hmoment with hstop | ⟨f, hf, ready, -, hstage⟩
    · obtain ⟨e, hstop⟩ := Option.isSome_iff_exists.1 hstop
      exact ⟨_, fly_stopped hstop, Job.gives_of_limit hfirst hholds hwaits
        (Flight.lt_nextMoment hverdict (by simp) hmoment) hcancels hdeadlines hstop⟩
    · rw [List.mem_singleton.1 hf] at hstage
      cases hstage

/-- **A single action** that the context does not stop at once is a job. -/
theorem fly_gives (hverdict : context.verdict? w.now w.now = none) :
    ∃ r, fly context w.now delay 3 [⟨ticket, action, .idle⟩] w = single r ∧
      (Job.ofAction ticket delay action).Gives context w.now ⟨w.gate, w.store⟩ r := by
  have hfirst : (Job.ofAction ticket delay action).run context w.now .nobody ⟨w.gate, w.store⟩ 1 =
      (Job.ofAction ticket delay action).pass w.now
        ⟨⟨w.gate.acquire ticket 1, w.store⟩, .idle⟩ := Job.run_nobody_one hverdict
  have hpoll : Flight.poll delay ⟨ticket, action, .idle⟩ w =
      Flight.pass delay ⟨ticket, action, .idle⟩ { w with gate := w.gate.acquire ticket 1 } := rfl
  generalize w.gate.acquire ticket 1 = g at hfirst hpoll
  by_cases hholds : g.holds ticket = true
  · have hfirst := hfirst.trans (Job.pass_of_holds hholds)
    by_cases hdelay : delay = 0
    · -- It has a unit, and the store acts at once.
      rcases hact : action w.store with ⟨result, store⟩
      refine ⟨(some result, { w with store := store, gate := g.drop ticket }),
        fly_acts (v := { w with gate := g }) hverdict ?_ hact, 1,
        hfirst.trans (Job.advance_ofAction_of_le (by simp [Job.ofAction, hdelay]) hact)⟩
      rw [hpoll, Flight.pass, if_pos hholds, if_pos hdelay]
    · -- It has a unit, and waits for the store.
      have hlater : w.now < w.now + delay := by omega
      have hfirst := hfirst.trans (Job.advance_ofAction_of_lt hlater)
      rw [Flight.pass, if_pos hholds, if_neg hdelay] at hpoll
      have hbusy : ∃ f ∈ [(⟨ticket, action, .working (w.now + delay)⟩ : Flight σ β)],
          ∃ ready, f.stage = .working ready := ⟨_, List.mem_singleton_self _, _, rfl⟩
      obtain ⟨moment, hmoment⟩ :=
        Option.isSome_iff_exists.1 (Flight.isSome_nextMoment (.inr hbusy))
      rw [(fly_goes hverdict hpoll rfl).2 moment hmoment]
      exact fly_working_gives (w := { w with gate := g }) hverdict hlater hfirst hmoment
  · by_cases hwaits : g.waits ticket = true
    · -- It waits for a unit, which nobody returns.
      have hfirst := hfirst.trans (Job.pass_of_waits hholds hwaits)
      rw [Flight.pass, if_neg hholds, if_pos hwaits] at hpoll
      obtain ⟨hnever, hlater⟩ :=
        fly_waiting_gives (w := { w with gate := g }) hverdict hfirst hholds hwaits
      cases hmoment : Flight.nextMoment? context [(⟨ticket, action, .waiting⟩ : Flight σ β)] with
      | none => exact ⟨_, (fly_goes hverdict hpoll rfl).1 hmoment, hnever hmoment⟩
      | some moment =>
        rw [(fly_goes hverdict hpoll rfl).2 moment hmoment]
        exact hlater moment hmoment
    · -- The gate is closed.
      have hfirst := hfirst.trans (Job.pass_of_refused hholds hwaits)
      rw [Flight.pass, if_neg hholds, if_neg hwaits] at hpoll
      exact ⟨(some (.error .gateClosed), { w with gate := g.drop ticket }),
        fly_refused hverdict hpoll, 1, hfirst⟩

variable [CacheStore σ] {asked : Nat → Nat}

/-- **A guarded call** is a job: it asks for one unit, and makes its call when the delay of the
store has passed. -/
theorem Sound.guarded_gives (h : w.Sound asked) (context : Context) (c : Call) :
    (Job.ofAction w.nextTicket (CacheStore.delay w.store) (CacheStore.call c)).Gives context w.now
      ⟨w.gate, w.store⟩ (w.guarded context c) := by
  cases hverdict : context.verdict? w.now w.now with
  | some e =>
    rw [h.guarded_dead hverdict]
    exact ⟨1, Job.run_nobody_dead hverdict⟩
  | none =>
    have hrun : ∃ r, w.fanOut context [CacheStore.call c] = single r ∧
        (Job.ofAction w.nextTicket (CacheStore.delay w.store) (CacheStore.call c)).Gives context
          w.now ⟨w.gate, w.store⟩ r :=
      fly_gives (w := { w with nextTicket := w.nextTicket + 1 }) hverdict
    obtain ⟨⟨r, w'⟩, hfan, hgives⟩ := hrun
    rw [World.guarded, hfan, single]
    cases r with
    | none => exact hgives
    | some result =>
      cases result with
      | error e => exact hgives
      | ok reply => exact hgives

end World

namespace Session

variable {s : Session} {asked : Nat → Nat} {name : String}

/-- A permit that is kept under a new name takes the place of no other. -/
theorem world_keep {config : Config} {ids : Nat → RecordId} {w : World Store} {holds : List Hold}
    {gates : Nat} (hnew : ∀ h ∈ holds, h.name ≠ name) (ticket : Nat) :
    (keep ⟨config, ids, w, holds, gates⟩ name ticket).world = w := by
  have hnone : holds.find? (fun h => h.name == name) = none := by simpa using hnew
  simp only [keep, release, hnone]

/-- **Units that are held** under a new name are those of a job that keeps its permit. -/
theorem hold_gives (h : s.world.Sound asked) (hnew : ∀ h ∈ s.holds, h.name ≠ name)
    (context : Context) (weight : Nat) :
    (Job.ofRequest s.world.nextTicket weight).Gives context s.world.now
      ⟨s.world.gate, s.world.store⟩
      ((s.hold context name weight).1, (s.hold context name weight).2.world) := by
  rw [hold]
  cases hverdict : context.verdict? s.world.now s.world.now with
  | some e => exact ⟨1, Job.run_nobody_dead hverdict⟩
  | none =>
    have hfirst : (Job.ofRequest (σ := Store) s.world.nextTicket weight).run context s.world.now
        .nobody ⟨s.world.gate, s.world.store⟩ 1 = _ := Job.run_nobody_one hverdict
    let requested : World Store :=
      { s.world with
        gate := s.world.gate.acquire s.world.nextTicket weight
        nextTicket := s.world.nextTicket + 1 }
    dsimp only
    split
    next hholds =>
      -- The permit is kept.
      dsimp only
      rw [world_keep hnew]
      exact ⟨1, hfirst.trans (Job.pass_of_holds hholds)⟩
    next hholds =>
      split
      next hwaits =>
        have hfirst := hfirst.trans (Job.pass_of_waits hholds hwaits)
        split
        next hends =>
          have hunlimited : context.cancelAt = none ∧ context.deadline = none := by
            simpa [List.min?_eq_none_iff] using hends
          exact Job.gives_of_waiting hfirst hholds hwaits hunlimited.1 hunlimited.2
        next moment hends =>
          obtain ⟨hmem, hle⟩ := List.min?_eq_some_iff.1 hends
          have hlimit : moment ∈ context.cancelAt ∨ moment ∈ context.deadline := by simpa using hmem
          obtain ⟨e, hstop⟩ := Option.ne_none_iff_exists'.1 fun hnone =>
            Nat.lt_irrefl _ (Context.lt_of_limit hnone hlimit)
          rw [hstop]
          exact Job.gives_of_limit (w := requested) hfirst hholds hwaits
            (Context.lt_of_limit hverdict hlimit)
            (fun c hc => hle c (by simp [Option.mem_def.1 hc]))
            (fun d hd => hle d (by simp [Option.mem_def.1 hd])) hstop
      next hnever =>
        -- A gate that turns a request away does not know it.
        have hnone : s.world.nextTicket ∉
            (s.world.gate.acquire s.world.nextTicket weight).tickets := fun hmem =>
          (Gate.mem_tickets_iff.1 hmem).elim hholds hnever
        have hdrop := (h.request weight).gate.drop_of_notMem hnone
        refine ⟨1, hfirst.trans ((Job.pass_of_refused hholds hnever).trans ?_)⟩
        simp [Job.finish, Job.ofRequest, Except.isOk, Except.toBool, hdrop]

end Session

end QueryCache
