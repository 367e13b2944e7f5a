import QueryCache.Proofs.Fanout.Halt
import QueryCache.Proofs.Fanout.Units

/-!
# Runs that end

Actions that run together do not wait for ever if the context has limits, if the gate is closed, or
if a unit of the gate is free when they begin. In the last case the actions stand in line in their
order behind those who hold the other units: so the first that is not finished has a unit as soon as
it is looked at, and then there is a moment at which the store acts on it. At that moment at least
one action is finished, so that there are fewer with each look.

## Main definitions

* `Flight.unfinished` : how many actions are not finished.
* `Flight.Goes` : what a look does to an action.
* `Flight.Lined` : the actions stand in line in their order.

## Main results

* `Context.verdict?_eq_none_iff` : when a context stops nothing.
* `Flight.unfinished_lt` : a look at a moment when an action is ready finishes one.
* `Flight.Lined.pollAll` : after a look all actions are finished, or the store works on one.
* `World.fly_isSome`, `World.Sound.fanOut_isSome` : runs that end.
* `World.Sound.guarded_isSome`, `World.Sound.guardedAll_isSome` : calls that are not kept waiting
  for ever.
-/

namespace QueryCache

variable {σ β : Type} {asked : Nat → Nat} {others : List Nat} {g g' : Gate}

/-! ### Verdicts -/

namespace Context

variable {c : Context} {started now t : Nat}

/-- The context ends work at some moment. -/
def limited (c : Context) : Bool := c.deadline.isSome || c.cancelAt.isSome

theorem reached_iff {moment : Option Nat} :
    reached moment now = true ↔ ∃ t ∈ moment, t ≤ now := by
  cases moment <;> simp [reached]

theorem reached_eq_false_iff {moment : Option Nat} :
    reached moment now = false ↔ ∀ t ∈ moment, now < t := by
  rw [← Bool.not_eq_true, reached_iff]
  push Not
  rfl

theorem verdict?_eq_none_iff : c.verdict? started now = none ↔
    (∀ t ∈ c.cancelAt, now < t) ∧ ∀ t ∈ c.deadline, now < t := by
  rw [← reached_eq_false_iff, ← reached_eq_false_iff, verdict?]
  cases reached c.cancelAt now <;> cases reached c.deadline now <;> simp

theorem verdict?_eq_cancelled (h : c.cancelAt = some t) (hle : t ≤ now) :
    c.verdict? started now = some .cancelled := by
  rw [verdict?, if_pos (reached_iff.2 ⟨t, h, hle⟩)]

theorem verdict?_eq_timeout (hcancel : ∀ t ∈ c.cancelAt, now < t) (h : c.deadline = some t)
    (hle : t ≤ now) : c.verdict? started now = some (.timeout (now - started)) := by
  rw [verdict?, reached_eq_false_iff.2 hcancel, if_neg Bool.false_ne_true,
    if_pos (reached_iff.2 ⟨t, h, hle⟩)]

theorem reached_self {moment : Option Nat} (h : t ∈ moment.toList) : reached moment t = true :=
  reached_iff.2 ⟨t, Option.mem_toList.1 h, le_rfl⟩

end Context

namespace Flight

variable {delay now : Nat} {f f' : Flight σ β} {w w' : World σ}
  {flights flights' done rest rest' : List (Flight σ β)}

/-! ### Fewer with each look -/

/-- How many actions are not finished. -/
def unfinished (flights : List (Flight σ β)) : Nat :=
  flights.countP fun f => !f.stage.result?.isSome

/-- What a look does to an action: it begins, stays finished, and is finished if it is ready. -/
structure Goes (now : Nat) (f f' : Flight σ β) : Prop where
  begun : f'.stage ≠ .idle
  stays : f.stage.result?.isSome = true → f'.stage.result?.isSome = true
  ready : ∀ ready ≤ now, f.stage = .working ready → f'.stage.result?.isSome = true

theorem Polled.goes (h : Polled delay f w (.ok f') w') : Goes w.now f f' ∧ w'.now = w.now := by
  cases h with
  | finished stage => exact ⟨⟨by simp [stage], id, fun _ _ _ => by rw [stage]; rfl⟩, rfl⟩
  | busy stage early =>
    refine ⟨⟨by simp [stage], id, fun ready hle hready => ?_⟩, rfl⟩
    rw [stage] at hready
    cases hready
    omega
  | waits stage | begins stage =>
    refine ⟨⟨by simp, fun hsome => ?_, fun ready _ hready => ?_⟩, rfl⟩
    · rcases stage with hidle | hwaiting
      · simp [hidle, Stage.result?] at hsome
      · simp [hwaiting, Stage.result?] at hsome
    · rcases stage with hidle | hwaiting
      · rw [hidle] at hready
        cases hready
      · rw [hwaiting] at hready
        cases hready
  | acts => exact ⟨⟨by simp, fun _ => rfl, fun _ _ _ => rfl⟩, rfl⟩

theorem pollAll_goes (h : pollAll delay flights w = (.ok flights', w')) :
    List.Forall₂ (Goes w.now) flights flights' := by
  induction flights generalizing flights' w with
  | nil =>
    cases h
    exact .nil
  | cons f rest ih =>
    obtain ⟨f₁, w₁, others, hfirst, hothers, rfl⟩ := pollAll_cons_eq_ok.1 h
    obtain ⟨hgoes, hnow⟩ := (Polled.of_eq hfirst).goes
    have hrest := ih hothers
    rw [hnow] at hrest
    exact .cons hgoes hrest

theorem unfinished_cons (f : Flight σ β) (rest : List (Flight σ β)) : unfinished (f :: rest) =
    unfinished rest + if f.stage.result?.isSome = true then 0 else 1 := by
  rw [unfinished, unfinished, List.countP_cons]
  cases f.stage.result?.isSome <;> rfl

theorem unfinished_le (h : List.Forall₂ (Goes now) flights flights') :
    unfinished flights' ≤ unfinished flights := by
  induction h with
  | nil => exact Nat.le_refl _
  | @cons f f' rest rest' hgoes _ ih =>
    rw [unfinished_cons, unfinished_cons]
    by_cases hdone : f.stage.result?.isSome = true
    · rw [if_pos hdone, if_pos (hgoes.stays hdone)]
      exact ih
    · rw [if_neg hdone]
      split <;> omega

/-- **A look at a moment when an action is ready** finishes one at least. -/
theorem unfinished_lt (h : List.Forall₂ (Goes now) flights flights')
    (hready : ∃ f ∈ flights, ∃ ready ≤ now, f.stage = .working ready) :
    unfinished flights' < unfinished flights := by
  induction h with
  | nil =>
    obtain ⟨f, hf, -⟩ := hready
    cases hf
  | @cons f f' rest rest' hgoes hrest ih =>
    rw [unfinished_cons, unfinished_cons]
    obtain ⟨d, hd, ready, hle, hstage⟩ := hready
    rcases List.mem_cons.1 hd with rfl | hd
    · have hopen : ¬ d.stage.result?.isSome = true := by
        rw [hstage]
        exact Bool.false_ne_true
      have hmore := unfinished_le hrest
      rw [if_neg hopen, if_pos (hgoes.ready ready hle hstage)]
      omega
    · have hfewer := ih ⟨d, hd, ready, hle, hstage⟩
      by_cases hdone : f.stage.result?.isSome = true
      · rw [if_pos hdone, if_pos (hgoes.stays hdone)]
        exact hfewer
      · rw [if_neg hdone]
        split <;> omega

/-! ### The line -/

/-- The tickets of the actions that have a unit or wait for one, in the order of the actions. -/
def line (flights : List (Flight σ β)) : List Nat :=
  (flights.filter fun f => f.stage.asks).map Flight.ticket

theorem line_append (done rest : List (Flight σ β)) :
    line (done ++ rest) = line done ++ line rest := by
  rw [line, List.filter_append, List.map_append, line, line]

theorem line_cons_of_asks (h : f.stage.asks = true) : line (f :: rest) = f.ticket :: line rest := by
  rw [line, List.filter_cons_of_pos (by simpa using h), List.map_cons, line]

theorem line_cons_of_not (h : f.stage.asks = false) : line (f :: rest) = line rest := by
  rw [line, List.filter_cons_of_neg (by simp [h]), line]

/-- The actions stand in line in their order, behind others who have not got all units. -/
structure Lined (asked : Nat → Nat) (others : List Nat) (flights : List (Flight σ β)) (g : Gate) :
    Prop where
  booked : Booked asked flights g
  order : g.tickets = others ++ line flights
  apart : ∀ f ∈ flights, f.ticket ∉ others
  holding : ∀ ticket ∈ others, g.holds ticket = true
  room : (others.map fun ticket => g.clampWeight (asked ticket)).sum < g.capacity

/-- What waits at the gate has nothing yet: it is one of the actions, which need one unit each. -/
theorem Lined.unitsTaken_eq_zero (h : Lined asked others flights g) :
    Gate.unitsTaken g.queue = 0 := by
  refine Gate.unitsTaken_eq_zero fun w hw => ?_
  have hwaits : w.ticket ∈ g.queue.map Waiter.ticket := List.mem_map_of_mem hw
  have hmem : w.ticket ∈ others ++ line flights := by
    rw [← h.order, Gate.mem_tickets_iff, Gate.waits_iff]
    exact .inr hwaits
  obtain ⟨hweight, htaken⟩ := h.booked.sound.waiting w hw
  rcases List.mem_append.1 hmem with hother | hown
  · exact (List.disjoint_of_nodup_append h.booked.sound.distinct
      (Gate.holds_iff.1 (h.holding _ hother)) hwaits).elim
  · obtain ⟨f, hf, hticket⟩ := List.mem_map.1 hown
    rw [← hticket, h.booked.one f (List.mem_of_mem_filter hf), Gate.clampWeight_one] at hweight
    omega

/-- **The first in line** has a unit. -/
theorem Lined.holds_first {ticket : Nat} {behind : List Nat} (h : Lined asked others flights g)
    (hfirst : line flights = ticket :: behind) : g.holds ticket = true := by
  by_contra hnot
  have horder := h.order
  rw [hfirst] at horder
  have hqueue : g.queue ≠ [] := by
    have hmem : ticket ∈ g.tickets := by
      rw [horder]
      simp
    have hwaits := (Gate.mem_tickets_iff.1 hmem).resolve_left hnot
    rw [Gate.waits_iff] at hwaits
    intro hnil
    rw [hnil] at hwaits
    cases hwaits
  -- the first in line comes after all permits, so these belong to the others
  have hpermits : ∃ more, others = g.permits.map Permit.ticket ++ more := by
    rw [Gate.tickets] at horder
    rcases List.append_eq_append_iff.1 horder with ⟨more, hothers, -⟩ | ⟨more, hpermits, hqueue⟩
    · exact ⟨more, hothers⟩
    · cases more with
      | nil => exact ⟨[], by rw [hpermits, List.append_nil, List.append_nil]⟩
      | cons next more =>
        obtain ⟨rfl, -⟩ := List.cons.inj hqueue
        rw [Gate.holds_iff, hpermits] at hnot
        simp at hnot
  obtain ⟨more, hmore⟩ := hpermits
  have hunits := h.booked.sound.units
  have hroom := h.room
  rw [hmore, List.map_append, List.sum_append, ← h.booked.sound.unitsHeld_eq] at hroom
  rw [h.booked.sound.noneFree hqueue, h.unitsTaken_eq_zero] at hunits
  omega

/-- Asking puts an action in its place in the line, unless the gate is closed; giving up removes
it. -/
theorem Lined.tickets_asking (h : Lined asked others (done ++ f :: rest) g)
    (hopen : ∀ result, f.stage ≠ .finished result) (hlast : f.stage = .idle → line rest = []) :
    (f.ticket ∈ (f.asking g).tickets →
      (f.asking g).tickets = others ++ line done ++ f.ticket :: line rest) ∧
    (f.asking g).tickets.erase f.ticket = others ++ line done ++ line rest := by
  have horder := h.order
  have hstands := h.booked.stands f (by simp)
  rw [line_append, ← List.append_assoc] at horder
  by_cases hasks : f.stage.asks = true
  · have hne : f.stage ≠ .idle := by
      intro hidle
      rw [hidle] at hasks
      cases hasks
    rw [line_cons_of_asks hasks] at horder
    have hnot : f.ticket ∉ others ++ line done := by
      have hdistinct := h.booked.sound.distinct
      rw [horder] at hdistinct
      intro hmem
      exact List.disjoint_of_nodup_append hdistinct hmem List.mem_cons_self
    rw [asking_of_ne hne, horder, List.erase_append_right _ hnot, List.erase_cons_head]
    exact ⟨fun _ => rfl, rfl⟩
  · have hidle : f.stage = .idle := by
      cases hstage : f.stage with
      | idle => rfl
      | finished result => exact (hopen result hstage).elim
      | waiting | working => exact (hasks (by rw [hstage]; rfl)).elim
    have hunknown := (stands_idle_iff hidle).1 hstands
    rw [line_cons_of_not (Bool.eq_false_iff.2 hasks), hlast hidle, List.append_nil] at horder
    have hasking : f.asking g = g.acquire f.ticket 1 := by rw [asking, hidle]
    rw [hasking, hlast hidle, List.append_nil]
    rcases h.booked.sound.tickets_acquire f.ticket 1 with hsame | hmore
    · rw [hsame]
      refine ⟨fun hmem => (hunknown hmem).elim, ?_⟩
      rw [List.erase_of_not_mem hunknown, horder]
    · rw [hmore, List.erase_append_right _ hunknown, List.erase_cons_head, List.append_nil, horder]
      exact ⟨fun _ => rfl, rfl⟩

/-- An action that goes on keeps its place in the line, or leaves it. -/
theorem Lined.of_polled (h : Lined asked others (done ++ f :: rest) w.gate)
    (hlast : f.stage = .idle → line rest = []) (hpolled : Polled delay f w (.ok f') w') :
    Lined asked others (done ++ f' :: rest) w'.gate := by
  have hf : f ∈ done ++ f :: rest := by simp
  have hstands := h.booked.stands f hf
  have hone := h.booked.one f hf
  have hmoves := (hpolled.moves hstands h.booked.sound hone).gate
  obtain ⟨hstands', hticket⟩ := hpolled.stands hstands h.booked.sound hone
  have hbooked := ((h.booked.perm List.perm_middle).of_polled hpolled).perm List.perm_middle.symm
  refine ⟨hbooked, ?_, ?_, fun ticket hother => ?_, ?_⟩
  · rw [line_append, ← List.append_assoc]
    cases hpolled with
    | finished | busy =>
      rw [List.append_assoc, ← line_append]
      exact h.order
    | waits stage noUnit place =>
      rw [line_cons_of_asks rfl]
      exact (h.tickets_asking (not_finished stage) hlast).1 (Gate.mem_tickets_iff.2 (.inr place))
    | begins stage unit slow =>
      rw [line_cons_of_asks rfl]
      exact (h.tickets_asking (not_finished stage) hlast).1 (Gate.mem_tickets_iff.2 (.inl unit))
    | acts stage unit act =>
      have hsound := (hstands.moves_asking h.booked.sound hone).sound
      rw [line_cons_of_not rfl, Gate.tickets_drop, ← hsound.distinct.erase_eq_filter]
      exact (h.tickets_asking stage hlast).2
  · intro d hd
    rcases List.mem_append.1 hd with hd | hd
    · exact h.apart d (List.mem_append_left _ hd)
    · rcases List.mem_cons.1 hd with rfl | hd
      · rw [hticket]
        exact h.apart f hf
      · exact h.apart d (List.mem_append_right _ (List.mem_cons_of_mem _ hd))
  · refine hmoves.holds ticket (fun hmem => h.apart f hf ?_) (h.holding ticket hother)
    rwa [← List.mem_singleton.1 hmem]
  · have hweights : (fun ticket => w'.gate.clampWeight (asked ticket)) =
        fun ticket => w.gate.clampWeight (asked ticket) :=
      funext fun ticket => Gate.clampWeight_of_capacity hmoves.capacity _
    rw [hweights, hmoves.capacity]
    exact h.room

/-- All actions have begun, or none has. -/
def Together (flights : List (Flight σ β)) : Prop :=
  (∀ f ∈ flights, f.stage = .idle) ∨ ∀ f ∈ flights, f.stage ≠ .idle

theorem Together.tail (h : Together (f :: rest)) : Together rest :=
  h.imp (fun hall => (List.forall_mem_cons.1 hall).2) fun hall => (List.forall_mem_cons.1 hall).2

/-- Nobody comes in the line behind an action that has not begun. -/
theorem Together.line_eq_nil (h : Together (f :: rest)) (hidle : f.stage = .idle) :
    line rest = [] := by
  rcases h with hall | hnone
  · have hasks : (rest.filter fun f => f.stage.asks) = [] := by
      rw [List.filter_eq_nil_iff]
      intro d hd
      rw [(List.forall_mem_cons.1 hall).2 d hd]
      exact Bool.false_ne_true
    rw [line, hasks, List.map_nil]
  · exact (hnone f List.mem_cons_self hidle).elim

theorem Lined.pollAll (h : Lined asked others (done ++ rest) w.gate) (htogether : Together rest)
    (hpoll : Flight.pollAll delay rest w = (.ok rest', w')) :
    Lined asked others (done ++ rest') w'.gate := by
  induction rest generalizing done rest' w with
  | nil =>
    cases hpoll
    exact h
  | cons f rest ih =>
    obtain ⟨f₁, w₁, others', hfirst, hothers, rfl⟩ := pollAll_cons_eq_ok.1 hpoll
    have hlined := h.of_polled htogether.line_eq_nil (Polled.of_eq hfirst)
    rw [List.append_cons] at hlined ⊢
    exact ih hlined htogether.tail hothers

theorem line_eq_nil_of_finished (h : ∀ f ∈ done, f.stage.result?.isSome = true) :
    line done = [] := by
  have hasks : (done.filter fun f => f.stage.asks) = [] := by
    rw [List.filter_eq_nil_iff]
    intro f hf hasks
    have hdone := h f hf
    cases hstage : f.stage <;> simp [hstage, Stage.result?, Stage.asks] at hdone hasks
  rw [line, hasks, List.map_nil]

/-- **After a look** at actions that stand in line all are finished, or the store works on one: the
first that is not finished had a unit when it was looked at. -/
theorem Lined.pollAll_works (h : Lined asked others (done ++ rest) w.gate)
    (htogether : Together rest) (hdone : ∀ f ∈ done, f.stage.result?.isSome = true)
    (hpoll : Flight.pollAll delay rest w = (.ok rest', w')) :
    (∀ f ∈ rest', f.stage.result?.isSome = true) ∨
      ∃ f ∈ rest', ∃ ready, f.stage = .working ready := by
  induction rest generalizing done rest' w with
  | nil =>
    cases hpoll
    exact .inl nofun
  | cons f rest ih =>
    obtain ⟨f₁, w₁, others', hfirst, hothers, rfl⟩ := pollAll_cons_eq_ok.1 hpoll
    have hpolled := Polled.of_eq hfirst
    have hlined := h.of_polled htogether.line_eq_nil hpolled
    have hnext (hfinished : f₁.stage.result?.isSome = true) :
        (∀ f ∈ f₁ :: others', f.stage.result?.isSome = true) ∨
          ∃ f ∈ f₁ :: others', ∃ ready, f.stage = .working ready := by
      have hdone₁ : ∀ d ∈ done ++ [f₁], d.stage.result?.isSome = true := by
        intro d hd
        rcases List.mem_append.1 hd with hd | hd
        · exact hdone d hd
        · rwa [List.mem_singleton.1 hd]
      rw [List.append_cons] at hlined
      rcases ih hlined htogether.tail hdone₁ hothers with hall | ⟨d, hd, hworks⟩
      · exact .inl (List.forall_mem_cons.2 ⟨hfinished, hall⟩)
      · exact .inr ⟨d, List.mem_cons_of_mem _ hd, hworks⟩
    cases hpolled with
    | finished stage => exact hnext (by rw [stage]; rfl)
    | busy stage early => exact .inr ⟨_, List.mem_cons_self, _, stage⟩
    | waits stage noUnit place =>
      -- All actions before this one are finished, so it is the first in line and has its unit.
      have hfirst : line (done ++ { f with stage := .waiting } :: rest) =
          f.ticket :: line rest := by
        rw [line_append, line_eq_nil_of_finished hdone, line_cons_of_asks rfl, List.nil_append]
      exact absurd (hlined.holds_first hfirst) (Bool.eq_false_iff.1 noUnit)
    | begins stage unit slow => exact .inr ⟨_, List.mem_cons_self, _, rfl⟩
    | acts stage unit act => exact hnext rfl

/-! ### The next moment -/

/-- Something happens now: the context ends the run, or the store is ready with an action. -/
def Due (context : Context) (started : Nat) (flights : List (Flight σ β)) (now : Nat) : Prop :=
  (context.verdict? started now).isSome = true ∨
    ∃ f ∈ flights, ∃ ready ≤ now, f.stage = .working ready

/-- **At the next moment** something happens. -/
theorem due_of_nextMoment {context : Context} {moment : Nat} (started : Nat)
    (h : nextMoment? context flights = some moment) : Due context started flights moment := by
  have hmem := List.min?_mem h
  rcases List.mem_append.1 hmem with hlimit | hready
  · refine .inl ?_
    rw [Context.verdict?]
    rcases List.mem_append.1 hlimit with hdeadline | hcancel
    · split
      · rfl
      · rw [if_pos (Context.reached_self hdeadline)]
        rfl
    · rw [if_pos (Context.reached_self hcancel)]
      rfl
  · obtain ⟨f, hf, hstage⟩ := List.mem_filterMap.1 hready
    refine .inr ⟨f, hf, moment, Nat.le_refl _, ?_⟩
    cases hworking : f.stage with
    | working ready =>
      rw [hworking] at hstage
      cases hstage
      rfl
    | idle | waiting | finished => simp [hworking, Stage.ready?] at hstage

theorem isSome_nextMoment {context : Context} (h : context.limited = true ∨
    ∃ f ∈ flights, ∃ ready, f.stage = .working ready) : (nextMoment? context flights).isSome := by
  have hmoment : ∃ moment, moment ∈ context.deadline.toList ++ context.cancelAt.toList ++
      flights.filterMap fun f => f.stage.ready? := by
    rcases h with hlimited | ⟨f, hf, ready, hstage⟩
    · rw [Context.limited, Bool.or_eq_true, Option.isSome_iff_exists,
        Option.isSome_iff_exists] at hlimited
      rcases hlimited with ⟨t, ht⟩ | ⟨t, ht⟩
      · exact ⟨t, by simp [ht]⟩
      · exact ⟨t, by simp [ht]⟩
    · refine ⟨ready, List.mem_append_right _ (List.mem_filterMap.2 ⟨f, hf, ?_⟩)⟩
      rw [hstage]
      rfl
  obtain ⟨moment, hmem⟩ := hmoment
  exact List.isSome_min?_of_mem hmem

/-- Nothing is left to do once all actions are finished. -/
theorem exists_open (h : results? flights = none) : ∃ f ∈ flights, f.stage.result? = none := by
  obtain ⟨action, haction⟩ := List.exists_mem_of_ne_nil _ (pending_ne_nil h)
  obtain ⟨f, hf, hpending⟩ := List.mem_flatMap.1 haction
  refine ⟨f, hf, ?_⟩
  by_contra hsome
  rw [pending, if_pos (Option.isSome_iff_ne_none.2 hsome)] at hpending
  cases hpending

/-- A run goes on: the context has limits, or the actions stand in line. -/
def Steady (context : Context) (asked : Nat → Nat) (others : List Nat)
    (flights : List (Flight σ β)) (g : Gate) : Prop :=
  context.limited = true ∨ Lined asked others flights g

theorem Steady.pollAll {context : Context} (h : Steady context asked others flights w.gate)
    (htogether : Together flights) (hpoll : Flight.pollAll delay flights w = (.ok flights', w')) :
    Steady context asked others flights' w'.gate ∧
      (results? flights' = none → ∃ moment, nextMoment? context flights' = some moment) := by
  rcases h with hlimited | hlined
  · exact ⟨.inl hlimited, fun _ => Option.isSome_iff_exists.1 (isSome_nextMoment (.inl hlimited))⟩
  · rw [← List.nil_append flights] at hlined
    refine ⟨.inr (hlined.pollAll htogether hpoll), fun hopen => ?_⟩
    obtain ⟨f, hf, hresult⟩ := exists_open hopen
    rcases hlined.pollAll_works htogether nofun hpoll with hall | hworks
    · exact absurd (hall f hf) (by simp [hresult])
    · exact Option.isSome_iff_exists.1 (isSome_nextMoment (.inr hworks))

end Flight

namespace World

variable {context : Context} {started delay fuel : Nat} {w w' : World σ}
  {flights flights' : List (Flight σ β)}

/-! ### Runs -/

theorem fly_of_verdict (h : (context.verdict? started w.now).isSome = true) :
    (fly context started delay (fuel + 1) flights w).1.isSome = true := by
  rw [fly]
  split
  · rfl
  next hnone => simp [hnone] at h

/-- A run ends if it ends after the first look, whenever something is left to do. -/
theorem fly_succ (h : ∀ flights₁ w₁, Flight.pollAll delay flights w = (.ok flights₁, w₁) →
      Flight.results? flights₁ = none → ∃ moment,
        Flight.nextMoment? context flights₁ = some moment ∧
          (fly context started delay fuel flights₁ { w₁ with now := moment }).1.isSome = true) :
    (fly context started delay (fuel + 1) flights w).1.isSome = true := by
  rw [fly]
  split
  · rfl
  · split
    · rfl
    next flights₁ w₁ hpoll =>
      split
      · rfl
      next hopen =>
        obtain ⟨moment, hmoment, hrest⟩ := h flights₁ w₁ hpoll hopen
        rw [hmoment]
        exact hrest

/-- **A run at a moment when something happens** ends, since each such moment finishes an action. -/
theorem fly_isSome_of_due (h : Flight.Steady context asked others flights w.gate)
    (hbegun : ∀ f ∈ flights, f.stage ≠ .idle) (hfuel : Flight.unfinished flights ≤ fuel)
    (hdue : Flight.Due context started flights w.now) :
    (fly context started delay (fuel + 1) flights w).1.isSome = true := by
  -- The fuel counts the actions that are not finished, and each such moment finishes one of them.
  induction fuel generalizing flights w with
  | zero =>
    rcases hdue with hverdict | hready
    · exact fly_of_verdict hverdict
    · refine fly_succ fun flights₁ w₁ hpoll _ => ?_
      have hfewer := Flight.unfinished_lt (Flight.pollAll_goes hpoll) hready
      omega
  | succ fuel ih =>
    rcases hdue with hverdict | hready
    · exact fly_of_verdict hverdict
    · refine fly_succ fun flights₁ w₁ hpoll hopen => ?_
      have hgoes := Flight.pollAll_goes hpoll
      have hfewer := Flight.unfinished_lt hgoes hready
      obtain ⟨hsteady, hnext⟩ := h.pollAll (.inr hbegun) hpoll
      obtain ⟨moment, hmoment⟩ := hnext hopen
      refine ⟨moment, hmoment, ih hsteady (fun f hf => ?_) (by omega)
        (Flight.due_of_nextMoment started hmoment)⟩
      obtain ⟨f₀, -, hf₀⟩ := exists_mem_of_forall₂ hgoes hf
      exact hf₀.begun

/-- **A run that has not begun** ends. -/
theorem fly_isSome (h : Flight.Steady context asked others flights w.gate)
    (hidle : ∀ f ∈ flights, f.stage = .idle) (hfuel : flights.length ≤ fuel) :
    (fly context started delay (fuel + 2) flights w).1.isSome = true := by
  refine fly_succ fun flights₁ w₁ hpoll hopen => ?_
  have hgoes := Flight.pollAll_goes hpoll
  obtain ⟨hsteady, hnext⟩ := h.pollAll (.inl hidle) hpoll
  obtain ⟨moment, hmoment⟩ := hnext hopen
  have hcount : Flight.unfinished flights₁ ≤ fuel := by
    have hle : Flight.unfinished flights₁ ≤ flights₁.length := List.countP_le_length
    have hlength := hgoes.length_eq
    omega
  refine ⟨moment, hmoment, fly_isSome_of_due hsteady (fun f hf => ?_) hcount
    (Flight.due_of_nextMoment started hmoment)⟩
  obtain ⟨f₀, -, hf₀⟩ := exists_mem_of_forall₂ hgoes hf
  exact hf₀.begun

/-- **A run at a closed gate** ends, since the first action is turned away. -/
theorem fly_of_closed (h : Flight.Booked asked flights w.gate)
    (hidle : ∀ f ∈ flights, f.stage = .idle) (hclosed : w.gate.closed = true) :
    (fly context started delay (fuel + 1) flights w).1.isSome = true := by
  refine fly_succ fun flights₁ w₁ hpoll hopen => ?_
  cases flights with
  | nil =>
    cases hpoll
    cases hopen
  | cons f rest =>
    obtain ⟨hidle, -⟩ := List.forall_mem_cons.1 hidle
    obtain ⟨-, -, -, hstands⟩ := Flight.booked_cons_iff.1 h
    have hasking : f.asking w.gate = w.gate := by
      rw [Flight.asking, hidle, Gate.acquire]
      exact if_pos hclosed
    have hnot : ¬ w.gate.holds f.ticket = true := fun hholds =>
      (Flight.stands_idle_iff hidle).1 hstands (Gate.mem_tickets_iff.2 (.inl hholds))
    have hnever : ¬ w.gate.waits f.ticket = true := fun hwaits =>
      (Flight.stands_idle_iff hidle).1 hstands (Gate.mem_tickets_iff.2 (.inr hwaits))
    obtain ⟨f₁, w₂, -, hfirst, -, -⟩ := Flight.pollAll_cons_eq_ok.1 hpoll
    rw [← hasking] at hnot hnever
    cases Flight.Polled.of_eq hfirst with
    | finished stage => cases hidle.symm.trans stage
    | busy stage => cases hidle.symm.trans stage
    | waits stage noUnit place => exact (hnever place).elim
    | begins stage unit slow => exact (hnot unit).elim
    | acts stage unit act => exact (hnot (unit (.inl hidle))).elim

theorem idle_of_mem_flightsOf {actions : List (Action σ β)} {f : Flight σ β}
    (hf : f ∈ w.flightsOf actions) : f.stage = .idle := by
  obtain ⟨i, hi, rfl⟩ := List.mem_mapIdx.1 hf
  rfl

/-- Actions that begin while a unit is free stand in line behind those who hold the others. -/
theorem Sound.lined (h : w.Sound asked) (hfree : 0 < w.gate.free) (actions : List (Action σ β)) :
    Flight.Lined asked w.gate.tickets (w.flightsOf actions) w.gate := by
  have hqueue := h.gate.queue_eq_nil hfree
  have htickets : w.gate.tickets = w.gate.permits.map Permit.ticket := by
    simp [Gate.tickets, hqueue]
  refine ⟨h.booked actions, ?_, fun f hf => ?_, fun ticket hticket => ?_, ?_⟩
  · have hasks : ((w.flightsOf actions).filter fun f => f.stage.asks) = [] := by
      rw [List.filter_eq_nil_iff]
      intro f hf
      rw [idle_of_mem_flightsOf hf]
      exact Bool.false_ne_true
    rw [Flight.line, hasks, List.map_nil, List.append_nil]
  · exact h.notMem_flightsOf actions _ (List.mem_map_of_mem hf)
  · rwa [htickets, ← Gate.holds_iff] at hticket
  · have hunits := h.gate.units
    rw [htickets, ← h.gate.unitsHeld_eq]
    omega

variable [CacheStore σ]

/-- **Actions that run together** are not kept waiting for ever. -/
theorem Sound.fanOut_isSome (h : w.Sound asked) (hready : context.limited = true ∨ w.gate.Ready)
    (actions : List (Action σ β)) : (w.fanOut context actions).1.isSome = true := by
  have hidle : ∀ f ∈ w.flightsOf actions, f.stage = .idle := fun f hf => idle_of_mem_flightsOf hf
  have hlength : (w.flightsOf actions).length ≤ actions.length := by simp [flightsOf]
  rcases hready with hlimited | hclosed | hfree
  · have hsteady : Flight.Steady context asked [] (w.flightsOf actions) w.gate := .inl hlimited
    exact fly_isSome hsteady hidle hlength
  · exact fly_of_closed (h.booked actions) hidle hclosed
  · exact fly_isSome (.inr (h.lined hfree actions)) hidle hlength

/-- A single call is not kept waiting for ever. -/
theorem Sound.guarded_isSome (h : w.Sound asked) (hready : context.limited = true ∨ w.gate.Ready)
    (c : Call) : (w.guarded context c).1.isSome = true := by
  obtain ⟨r, hr⟩ := Option.isSome_iff_exists.1 (h.fanOut_isSome hready [CacheStore.call c])
  have hfan : w.fanOut context [CacheStore.call c] = (some r, _) := Prod.ext hr rfl
  rw [World.guarded, hfan]
  rcases r with e | _ | ⟨reply, replies⟩
  · rfl
  · obtain ⟨-, -, -, hlength, -⟩ := fanOut_ok hfan
    cases hlength
  · rfl

/-- Calls that run together are not kept waiting for ever. -/
theorem Sound.guardedAll_isSome (h : w.Sound asked)
    (hready : context.limited = true ∨ w.gate.Ready) (calls : List Call) :
    (w.guardedAll context calls).1.isSome = true := by
  cases calls with
  | nil => rfl
  | cons c rest =>
    obtain ⟨r, hr⟩ := Option.isSome_iff_exists.1 (h.fanOut_isSome hready ((c :: rest).map acting))
    have hfan : w.fanOut context ((c :: rest).map acting) = (some r, _) := Prod.ext hr rfl
    rw [guardedAll_cons, hfan]
    cases r <;> rfl

end World

end QueryCache
