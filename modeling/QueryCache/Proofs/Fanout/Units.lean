import QueryCache.Proofs.Fanout.Log
import QueryCache.Proofs.Gate.Units
import QueryCache.Proofs.Related

/-!
# The units of actions that run together

An action asks the gate for a unit when it is looked at first, has the unit while the store works on
it, and gives it back with the result. If the whole run fails, whatever the actions have is given
back. So a run leaves the gate to everybody else as it was, however it ends, and at no moment have
more actions been begun and not finished than the gate has units.

## Main definitions

* `Flight.Polled` : what a look at an action can come to.
* `Flight.Booked` : the books of the gate are right, and agree with how far each action has come.
* `World.Sound` : the books of the gate are right, and the next tickets are unknown to it.
* `World.Keeps` : the gate is left as it was to everybody else.
* `World.Passes` : the moments of a run; `Flight.inFlight` : the actions under way at a moment.

## Main results

* `Flight.Booked.pollAll`, `World.fly_moves` : what a look at all actions preserves, and a run.
* `World.Sound.fanOut`, `World.Sound.guarded`, `World.Sound.guardedAll` : what is left of the gate.
* `World.Passes.inFlight_le` : the actions under way are never more than the units.
-/

namespace QueryCache

variable {σ β : Type} {asked : Nat → Nat} {own : List Nat} {g g' : Gate}

/-- The action has a unit of the gate or waits for one. -/
def Stage.asks : Stage β → Bool
  | .waiting | .working _ => true
  | .idle | .finished _ => false

/-- Some parties do something at the gate of a world, and no tickets are given out. -/
structure World.Moves (asked : Nat → Nat) (own : List Nat) (w w' : World σ) : Prop where
  gate : w.gate.Moves asked own w'.gate
  nextTicket : w'.nextTicket = w.nextTicket

theorem World.Moves.trans {w w' w'' : World σ} (h : World.Moves asked own w w')
    (h' : World.Moves asked own w' w'') : World.Moves asked own w w'' :=
  ⟨h.gate.trans h'.gate, h'.nextTicket.trans h.nextTicket⟩

theorem World.Moves.mono {own' : List Nat} {w w' : World σ} (h : World.Moves asked own w w')
    (hsub : own ⊆ own') : World.Moves asked own' w w' :=
  ⟨h.gate.mono hsub, h.nextTicket⟩

namespace Flight

variable {delay : Nat} {f f' : Flight σ β} {w w' : World σ} {flights flights' : List (Flight σ β)}

/-! ### One action -/

/-- The gate after an action has asked it for a unit, if it has not done so before. -/
def asking (f : Flight σ β) (g : Gate) : Gate :=
  match f.stage with
  | .idle => g.acquire f.ticket 1
  | _ => g

theorem asking_of_ne (h : f.stage ≠ .idle) (g : Gate) : f.asking g = g := by
  rw [asking]
  split
  · exact (h ‹_›).elim
  · rfl

theorem holds_asking {ticket : Nat} (h : g.holds ticket = true) :
    (f.asking g).holds ticket = true := by
  rw [asking]
  split
  · exact Gate.holds_acquire h
  · exact h

theorem not_finished (h : f.stage = .idle ∨ f.stage = .waiting) (result : β) :
    f.stage ≠ .finished result := by
  intro heq
  rw [heq] at h
  exact h.elim nofun nofun

/-- What a look at an action can come to. -/
inductive Polled (delay : Nat) (f : Flight σ β) (w : World σ) :
    Except CacheError (Flight σ β) → World σ → Prop
  | finished {result} (stage : f.stage = .finished result) : Polled delay f w (.ok f) w
  | busy {ready} (stage : f.stage = .working ready) (early : w.now < ready) :
    Polled delay f w (.ok f) w
  | waits (stage : f.stage = .idle ∨ f.stage = .waiting)
    (noUnit : (f.asking w.gate).holds f.ticket = false)
    (place : (f.asking w.gate).waits f.ticket = true) :
    Polled delay f w (.ok { f with stage := .waiting }) { w with gate := f.asking w.gate }
  | begins (stage : f.stage = .idle ∨ f.stage = .waiting)
    (unit : (f.asking w.gate).holds f.ticket = true) (slow : delay ≠ 0) :
    Polled delay f w (.ok { f with stage := .working (w.now + delay) })
      { w with gate := f.asking w.gate }
  | acts {result store} (stage : ∀ result, f.stage ≠ .finished result)
    (unit : f.stage = .idle ∨ f.stage = .waiting → (f.asking w.gate).holds f.ticket = true)
    (act : f.action w.store = (.ok result, store)) :
    Polled delay f w (.ok { f with stage := .finished result })
      { w with store := store, gate := (f.asking w.gate).drop f.ticket }
  | fails {e store} (stage : ∀ result, f.stage ≠ .finished result)
    (unit : f.stage = .idle ∨ f.stage = .waiting → (f.asking w.gate).holds f.ticket = true)
    (act : f.action w.store = (.error e, store)) :
    Polled delay f w (.error e) { w with store := store, gate := f.asking w.gate }
  | refused (stage : f.stage = .idle ∨ f.stage = .waiting)
    (unknown : f.ticket ∉ (f.asking w.gate).tickets) :
    Polled delay f w (.error .gateClosed) { w with gate := f.asking w.gate }

theorem act_polled (delay : Nat) (w : World σ) (stage : ∀ result, f.stage ≠ .finished result)
    (unit : f.stage = .idle ∨ f.stage = .waiting → (f.asking w.gate).holds f.ticket = true) :
    Polled delay f w (f.act { w with gate := f.asking w.gate }).1
      (f.act { w with gate := f.asking w.gate }).2 := by
  rw [act]
  cases hact : f.action w.store with
  | mk result store =>
    cases result with
    | ok result => exact .acts stage unit hact
    | error e => exact .fails stage unit hact

theorem pass_polled (delay : Nat) (w : World σ) (stage : f.stage = .idle ∨ f.stage = .waiting) :
    Polled delay f w (f.pass delay { w with gate := f.asking w.gate }).1
      (f.pass delay { w with gate := f.asking w.gate }).2 := by
  rw [pass]
  split
  next hholds =>
    split
    · exact act_polled delay w (not_finished stage) fun _ => hholds
    next hslow => exact .begins stage hholds hslow
  next hnot =>
    split
    next hwaits => exact .waits stage (Bool.eq_false_iff.2 hnot) hwaits
    next hnever => exact .refused stage fun hmem => (Gate.mem_tickets_iff.1 hmem).elim hnot hnever

/-- **A look at an action** comes to one of these. -/
theorem poll_polled (delay : Nat) (f : Flight σ β) (w : World σ) :
    Polled delay f w (f.poll delay w).1 (f.poll delay w).2 := by
  have hsame (h : f.stage ≠ .idle) : ({ w with gate := f.asking w.gate } : World σ) = w := by
    rw [asking_of_ne h]
  rw [poll]
  cases hstage : f.stage with
  | idle =>
    have hasking : w.gate.acquire f.ticket 1 = f.asking w.gate := by rw [asking, hstage]
    simp only [hasking]
    exact pass_polled delay w (.inl hstage)
  | waiting =>
    have hpass := pass_polled delay w (.inr hstage)
    rwa [hsame (by simp [hstage])] at hpass
  | working ready =>
    simp only
    split
    next hready =>
      have hopen : ∀ result, f.stage ≠ .finished result := by simp [hstage]
      have hact := act_polled delay w hopen (by simp [hstage])
      rwa [hsame (by simp [hstage])] at hact
    next hearly => exact .busy hstage (Nat.lt_of_not_le hearly)
  | finished result => exact .finished hstage

theorem Polled.of_eq {r : Except CacheError (Flight σ β)} (h : f.poll delay w = (r, w')) :
    Polled delay f w r w' := by
  have hpolled := poll_polled delay f w
  rwa [h] at hpolled

/-- What the gate knows of an action agrees with how far it has come. -/
structure Stands (f : Flight σ β) (g : Gate) : Prop where
  known : f.ticket ∈ g.tickets ↔ f.stage.asks = true
  granted : ∀ ready, f.stage = .working ready → g.holds f.ticket = true

theorem stands_idle_iff (h : f.stage = .idle) : f.Stands g ↔ f.ticket ∉ g.tickets := by
  constructor
  · intro hstands hmem
    have hasks := hstands.known.1 hmem
    rw [h] at hasks
    cases hasks
  · intro hnot
    exact ⟨by rw [h]; exact iff_of_false hnot Bool.false_ne_true, by rw [h]; exact nofun⟩

theorem Stands.of_moves (h : f.Stands g) (hmoves : g.Moves asked own g') (hnot : f.ticket ∉ own) :
    f.Stands g' where
  known := (hmoves.known _ hnot).trans h.known
  granted := fun ready hready => hmoves.holds _ hnot (h.granted ready hready)

theorem Stands.moves_asking (h : f.Stands g) (hsound : g.Sound asked) (hone : asked f.ticket = 1) :
    g.Moves asked [f.ticket] (f.asking g) := by
  rw [asking]
  split
  next hidle =>
    rw [← hone]
    exact hsound.moves_acquire ((stands_idle_iff hidle).1 h)
  next => exact .refl hsound

/-- **A look at an action** does nothing to the other parties at the gate. -/
theorem Polled.moves {r : Except CacheError (Flight σ β)} (h : Polled delay f w r w')
    (hstands : f.Stands w.gate) (hsound : w.gate.Sound asked) (hone : asked f.ticket = 1) :
    w.Moves asked [f.ticket] w' := by
  have hasking := hstands.moves_asking hsound hone
  cases h with
  | finished | busy => exact ⟨.refl hsound, rfl⟩
  | waits | begins | fails | refused => exact ⟨hasking, rfl⟩
  | acts => exact ⟨hasking.trans (hasking.sound.moves_drop f.ticket), rfl⟩

/-- After a look at an action the gate knows how far it has come. -/
theorem Polled.stands (h : Polled delay f w (.ok f') w') (hstands : f.Stands w.gate)
    (hsound : w.gate.Sound asked) (hone : asked f.ticket = 1) :
    f'.Stands w'.gate ∧ f'.ticket = f.ticket := by
  have hasking := hstands.moves_asking hsound hone
  cases h with
  | finished | busy => exact ⟨hstands, rfl⟩
  | waits stage noUnit place =>
    exact ⟨⟨iff_of_true (Gate.mem_tickets_iff.2 (.inr place)) rfl, nofun⟩, rfl⟩
  | begins stage unit slow =>
    exact ⟨⟨iff_of_true (Gate.mem_tickets_iff.2 (.inl unit)) rfl, fun _ _ => unit⟩, rfl⟩
  | acts stage unit act =>
    refine ⟨⟨iff_of_false (fun hmem => ?_) Bool.false_ne_true, nofun⟩, rfl⟩
    exact (Gate.mem_tickets_drop.1 hmem).2 rfl

/-! ### All actions -/

theorem pollAll_cons_eq_ok {rest : List (Flight σ β)} :
    pollAll delay (f :: rest) w = (.ok flights', w') ↔
      ∃ f₁ w₁ others, f.poll delay w = (.ok f₁, w₁) ∧
        pollAll delay rest w₁ = (.ok others, w') ∧ flights' = f₁ :: others := by
  rw [pollAll]
  rcases f.poll delay w with ⟨e | f₁, w₁⟩
  · simp
  · rcases hrest : pollAll delay rest w₁ with ⟨e | others, w₂⟩ <;> simp [hrest]
    grind

theorem pollAll_cons_eq_error {rest : List (Flight σ β)} {e : CacheError} :
    pollAll delay (f :: rest) w = (.error e, w') ↔
      f.poll delay w = (.error e, w') ∨
        ∃ f₁ w₁, f.poll delay w = (.ok f₁, w₁) ∧ pollAll delay rest w₁ = (.error e, w') := by
  rw [pollAll]
  rcases f.poll delay w with ⟨e | f₁, w₁⟩
  · simp
  · rcases hrest : pollAll delay rest w₁ with ⟨e | others, w₂⟩ <;> simp [hrest]

/-- The books of the gate are right, each action needs one unit, and the gate knows how far each has
come. -/
structure Booked (asked : Nat → Nat) (flights : List (Flight σ β)) (g : Gate) : Prop where
  sound : g.Sound asked
  distinct : (flights.map Flight.ticket).Nodup
  one : ∀ f ∈ flights, asked f.ticket = 1
  stands : ∀ f ∈ flights, f.Stands g

theorem booked_cons_iff {rest : List (Flight σ β)} :
    Booked asked (f :: rest) g ↔ Booked asked rest g ∧ f.ticket ∉ rest.map Flight.ticket ∧
      asked f.ticket = 1 ∧ f.Stands g := by
  constructor
  · intro h
    obtain ⟨hnot, hdistinct⟩ := List.nodup_cons.1 h.distinct
    obtain ⟨hone, hones⟩ := List.forall_mem_cons.1 h.one
    obtain ⟨hstands, hothers⟩ := List.forall_mem_cons.1 h.stands
    exact ⟨⟨h.sound, hdistinct, hones, hothers⟩, hnot, hone, hstands⟩
  · rintro ⟨h, hnot, hone, hstands⟩
    exact ⟨h.sound, List.nodup_cons.2 ⟨hnot, h.distinct⟩, List.forall_mem_cons.2 ⟨hone, h.one⟩,
      List.forall_mem_cons.2 ⟨hstands, h.stands⟩⟩

theorem Booked.perm (h : Booked asked flights g) (hperm : flights.Perm flights') :
    Booked asked flights' g where
  sound := h.sound
  distinct := (hperm.map Flight.ticket).nodup_iff.1 h.distinct
  one := fun f hf => h.one f (hperm.mem_iff.2 hf)
  stands := fun f hf => h.stands f (hperm.mem_iff.2 hf)

/-- Actions stand as before when only others do something at the gate. -/
theorem Booked.of_moves (h : Booked asked flights g) (hmoves : g.Moves asked own g')
    (hothers : ∀ ticket ∈ own, ticket ∉ flights.map Flight.ticket) : Booked asked flights g' where
  sound := hmoves.sound
  distinct := h.distinct
  one := h.one
  stands := fun f hf =>
    (h.stands f hf).of_moves hmoves fun hown => hothers _ hown (List.mem_map_of_mem hf)

/-- The first action goes on, the others stand as before. -/
theorem Booked.of_polled {rest : List (Flight σ β)} (h : Booked asked (f :: rest) w.gate)
    (hpolled : Polled delay f w (.ok f') w') : Booked asked (f' :: rest) w'.gate := by
  obtain ⟨hrest, hnot, hone, hstands⟩ := booked_cons_iff.1 h
  have hmoves := hpolled.moves hstands h.sound hone
  obtain ⟨hstands', hticket⟩ := hpolled.stands hstands h.sound hone
  have hothers : ∀ ticket ∈ [f.ticket], ticket ∉ rest.map Flight.ticket := by
    intro ticket hmem
    rwa [List.mem_singleton.1 hmem]
  refine booked_cons_iff.2 ⟨hrest.of_moves hmoves.gate hothers, ?_, ?_, hstands'⟩
  · rwa [hticket]
  · rwa [hticket]

/-- **A look at some of the actions** keeps the books right, and does nothing to anybody else. -/
theorem Booked.pollAll_append {before done rest : List (Flight σ β)}
    (h : Booked asked (before ++ rest) w.gate)
    (hpoll : Flight.pollAll delay before w = (.ok done, w')) :
    Booked asked (done ++ rest) w'.gate ∧ done.map Flight.ticket = before.map Flight.ticket ∧
      w.Moves asked (before.map Flight.ticket) w' := by
  -- The actions behind those that are looked at are not asked, but their entries must stay right.
  induction before generalizing done w with
  | nil =>
    cases hpoll
    exact ⟨h, rfl, ⟨.refl h.sound, rfl⟩⟩
  | cons f before ih =>
    obtain ⟨f₁, w₁, others, hfirst, hothers, rfl⟩ := pollAll_cons_eq_ok.1 hpoll
    rw [List.cons_append] at h
    obtain ⟨-, hnot, hone, hstands⟩ := booked_cons_iff.1 h
    have hpolled := Polled.of_eq hfirst
    have hticket := (hpolled.stands hstands h.sound hone).2
    have hmoves := hpolled.moves hstands h.sound hone
    obtain ⟨hbooked, -, hone₁, hstands₁⟩ := booked_cons_iff.1 (h.of_polled hpolled)
    obtain ⟨hdone, htickets, hrest⟩ := ih hbooked hothers
    rw [List.map_append, List.mem_append, not_or] at hnot
    have hnot₁ : f₁.ticket ∉ before.map Flight.ticket := by
      rw [hticket]
      exact hnot.1
    rw [List.cons_append]
    refine ⟨booked_cons_iff.2 ⟨hdone, ?_, hone₁, hstands₁.of_moves hrest.gate hnot₁⟩, ?_, ?_⟩
    · rw [List.map_append, htickets, hticket, List.mem_append, not_or]
      exact hnot
    · rw [List.map_cons, List.map_cons, hticket, htickets]
    · exact (hmoves.mono (by simp)).trans (hrest.mono (List.subset_cons_self _ _))

/-- **A look at all actions** keeps the books right, and does nothing to anybody else. -/
theorem Booked.pollAll (h : Booked asked flights w.gate)
    (hpoll : Flight.pollAll delay flights w = (.ok flights', w')) :
    Booked asked flights' w'.gate ∧ flights'.map Flight.ticket = flights.map Flight.ticket ∧
      w.Moves asked (flights.map Flight.ticket) w' := by
  rw [← List.append_nil flights] at h
  have hdone := h.pollAll_append hpoll
  rwa [List.append_nil] at hdone

theorem Booked.pollAll_error {e : CacheError} (h : Booked asked flights w.gate)
    (hpoll : Flight.pollAll delay flights w = (.error e, w')) :
    w.Moves asked (flights.map Flight.ticket) w' := by
  induction flights generalizing w with
  | nil => cases hpoll
  | cons f rest ih =>
    obtain ⟨-, hnot, hone, hstands⟩ := booked_cons_iff.1 h
    rcases pollAll_cons_eq_error.1 hpoll with hfirst | ⟨f₁, w₁, hfirst, hrest⟩
    · exact ((Polled.of_eq hfirst).moves hstands h.sound hone).mono (by simp)
    · have hpolled := Polled.of_eq hfirst
      have hmoves := hpolled.moves hstands h.sound hone
      have hothers := ih (booked_cons_iff.1 (h.of_polled hpolled)).1 hrest
      exact (hmoves.mono (by simp)).trans (hothers.mono (List.subset_cons_self _ _))

/-- Finished actions have left the gate. -/
theorem Booked.notMem_of_results {results : List β} (h : Booked asked flights g)
    (hresults : results? flights = some results) :
    ∀ ticket ∈ flights.map Flight.ticket, ticket ∉ g.tickets := by
  intro ticket hticket
  obtain ⟨f, hf, rfl⟩ := List.mem_map.1 hticket
  obtain ⟨result, hresult⟩ : ∃ result, f.stage.result? = some result := by
    obtain ⟨result, -, hresult⟩ := exists_mem_of_forall₂ (mapM_eq_some_iff.1 hresults).flip hf
    exact ⟨result, hresult⟩
  rw [(h.stands f hf).known]
  cases hstage : f.stage with
  | finished result => exact Bool.false_ne_true
  | idle | waiting | working => simp [hstage, Stage.result?] at hresult

end Flight

/-! ### A run -/

namespace World

variable {context : Context} {started delay : Nat} {w w' w'' : World σ}
  {flights flights' : List (Flight σ β)}

/-- Actions that are given up have left the gate. -/
theorem moves_abandon (h : w.gate.Sound asked) (flights : List (Flight σ β)) :
    w.Moves asked (flights.map Flight.ticket) (w.abandon flights) ∧
      ∀ ticket ∈ flights.map Flight.ticket, ticket ∉ (w.abandon flights).gate.tickets := by
  refine ⟨⟨h.moves_foldl_drop Flight.ticket flights, rfl⟩, fun ticket hticket hmem => ?_⟩
  exact (((h.foldl_drop Flight.ticket flights).2 ticket).1 hmem).2 hticket

/-- **A run that ends** has done nothing to anybody else, and has left the gate. -/
theorem fly_moves {fuel : Nat} {r : Except CacheError (List β)}
    (h : Flight.Booked asked flights w.gate)
    (hfly : fly context started delay fuel flights w = (some r, w')) :
    w.Moves asked (flights.map Flight.ticket) w' ∧
      ∀ ticket ∈ flights.map Flight.ticket, ticket ∉ w'.gate.tickets := by
  induction fuel generalizing flights w with
  | zero => cases hfly
  | succ fuel ih =>
    rw [fly] at hfly
    split at hfly
    · cases hfly
      exact moves_abandon h.sound flights
    · split at hfly
      next e w₁ hpoll =>
        cases hfly
        have hmoves := h.pollAll_error hpoll
        obtain ⟨hleft, hgone⟩ := moves_abandon hmoves.gate.sound flights
        exact ⟨hmoves.trans hleft, hgone⟩
      next flights₁ w₁ hpoll =>
        obtain ⟨hbooked₁, htickets, hmoves⟩ := h.pollAll hpoll
        split at hfly
        next results hresults =>
          cases hfly
          exact ⟨hmoves, htickets ▸ hbooked₁.notMem_of_results hresults⟩
        · split at hfly
          · cases hfly
          next moment _ =>
            obtain ⟨hlater, hgone⟩ := ih (w := { w₁ with now := moment }) hbooked₁ hfly
            rw [htickets] at hlater hgone
            have hnext := hlater.nextTicket.trans hmoves.nextTicket
            exact ⟨⟨hmoves.gate.trans hlater.gate, hnext⟩, hgone⟩

/-! ### What is left of the gate -/

/-- The books of the gate are right, the next tickets are unknown to it, and with these single units
are asked for. -/
structure Sound (asked : Nat → Nat) (w : World σ) : Prop where
  gate : w.gate.Sound asked
  fresh : ∀ ticket ∈ w.gate.tickets, ticket < w.nextTicket
  one : ∀ ticket, w.nextTicket ≤ ticket → asked ticket = 1

/-- The gate is left to everybody as it was. -/
structure Keeps (asked : Nat → Nat) (w w' : World σ) : Prop where
  sound : w'.Sound asked
  gate : w.gate.Moves asked [] w'.gate

theorem Sound.of_gate (h : w.Sound asked) (hgate : w'.gate = w.gate)
    (hnext : w'.nextTicket = w.nextTicket) : w'.Sound asked :=
  ⟨hgate ▸ h.gate, by rw [hgate, hnext]; exact h.fresh, by rw [hnext]; exact h.one⟩

theorem Sound.keeps (h : w.Sound asked) : w.Keeps asked w := ⟨h, .refl h.gate⟩

theorem Keeps.trans (h : w.Keeps asked w') (h' : w'.Keeps asked w'') : w.Keeps asked w'' :=
  ⟨h'.sound, h.gate.trans h'.gate⟩

theorem tickets_flightsOf (w : World σ) (actions : List (σ → Except CacheError β × σ)) :
    (w.flightsOf actions).map Flight.ticket = List.range' w.nextTicket actions.length := by
  refine List.ext_getElem (by simp [flightsOf]) fun i _ _ => ?_
  simp [flightsOf]

theorem Sound.notMem_flightsOf (h : w.Sound asked) (actions : List (σ → Except CacheError β × σ)) :
    ∀ ticket ∈ (w.flightsOf actions).map Flight.ticket, ticket ∉ w.gate.tickets := by
  intro ticket hmem hknown
  rw [tickets_flightsOf, List.mem_range'_1] at hmem
  exact absurd (h.fresh ticket hknown) (Nat.not_lt_of_le hmem.1)

theorem Sound.booked (h : w.Sound asked) (actions : List (σ → Except CacheError β × σ)) :
    Flight.Booked asked (w.flightsOf actions) w.gate where
  sound := h.gate
  distinct := by
    rw [tickets_flightsOf]
    exact List.nodup_range'
  one := by
    intro f hf
    have hmem := List.mem_map_of_mem (f := Flight.ticket) hf
    rw [tickets_flightsOf, List.mem_range'_1] at hmem
    exact h.one _ hmem.1
  stands := by
    intro f hf
    have hidle : f.stage = .idle := by
      obtain ⟨i, hi, rfl⟩ := List.mem_mapIdx.1 hf
      rfl
    have hunknown := h.notMem_flightsOf actions _ (List.mem_map_of_mem hf)
    rw [Flight.stands_idle_iff hidle]
    exact hunknown

variable [CacheStore σ]

/-- **Actions that run together** leave the gate to everybody as it was, however the run ends. -/
theorem Sound.fanOut (h : w.Sound asked) {actions : List (σ → Except CacheError β × σ)}
    {r : Except CacheError (List β)} (hfan : w.fanOut context actions = (some r, w')) :
    w.Keeps asked w' := by
  obtain ⟨hmoves, hgone⟩ := fly_moves (w := { w with nextTicket := w.nextTicket + actions.length })
    (h.booked actions) hfan
  have hgate := hmoves.gate.of_gone (h.notMem_flightsOf actions) hgone
  have hnext : w'.nextTicket = w.nextTicket + actions.length := hmoves.nextTicket
  refine ⟨⟨hgate.sound, fun ticket hticket => ?_, fun ticket hlater => ?_⟩, hgate⟩
  · have hbefore := h.fresh ticket ((hgate.known ticket List.not_mem_nil).1 hticket)
    omega
  · exact h.one ticket (by omega)

theorem fanOut_of_guarded {c : Call} {r : Except CacheError c.Reply}
    (h : w.guarded context c = (some r, w')) :
    ∃ r', w.fanOut context [CacheStore.call c] = (some r', w') := by
  rw [World.guarded] at h
  split at h
  next hfan =>
    cases h
    exact ⟨_, hfan⟩
  next hfan =>
    cases h
    exact ⟨_, hfan⟩
  next => cases h

theorem fanOut_of_guardedAll {calls : List Call} {r : Except CacheError Unit}
    (h : w.guardedAll context calls = (some r, w')) :
    calls = [] ∧ w' = w ∨ ∃ r', w.fanOut context (calls.map acting) = (some r', w') := by
  cases calls with
  | nil =>
    cases h
    exact .inl ⟨rfl, rfl⟩
  | cons c rest =>
    rw [guardedAll_cons] at h
    refine .inr ?_
    split at h
    next hfan =>
      cases h
      exact ⟨_, hfan⟩
    next hfan =>
      cases h
      exact ⟨_, hfan⟩
    next => cases h

theorem Sound.guarded (h : w.Sound asked) {c : Call} {r : Except CacheError c.Reply}
    (hcall : w.guarded context c = (some r, w')) : w.Keeps asked w' := by
  obtain ⟨r', hfan⟩ := fanOut_of_guarded hcall
  exact h.fanOut hfan

theorem Sound.guardedAll (h : w.Sound asked) {calls : List Call} {r : Except CacheError Unit}
    (hcalls : w.guardedAll context calls = (some r, w')) : w.Keeps asked w' := by
  rcases fanOut_of_guardedAll hcalls with ⟨-, rfl⟩ | ⟨r', hfan⟩
  · exact h.keeps
  · exact h.fanOut hfan

end World

/-! ### Moments -/

namespace Flight

variable {delay : Nat} {f : Flight σ β} {w w' : World σ} {flights flights' : List (Flight σ β)}

/-- The actions under way: those that have a unit, or that the store works on. -/
def inFlight (flights : List (Flight σ β)) (g : Gate) : Nat :=
  flights.countP fun f => g.holds f.ticket || f.stage.ready?.isSome

/-- The moments of a look at all actions: some have been looked at, and the next one may have asked
the gate for its unit. -/
inductive Passes (delay : Nat) (flights : List (Flight σ β)) (w : World σ) :
    List (Flight σ β) → World σ → Prop
  | looked {before rest done w'} (split : flights = before ++ rest)
    (polled : pollAll delay before w = (.ok done, w')) : Passes delay flights w (done ++ rest) w'
  | asks {before f rest done w'} (split : flights = before ++ f :: rest)
    (polled : pollAll delay before w = (.ok done, w')) :
    Passes delay flights w (done ++ f :: rest) { w' with gate := f.asking w'.gate }

/-- **Every action under way has a unit**, so there are not more than units. -/
theorem inFlight_le (hsound : g.Sound asked) (hdistinct : (flights.map Flight.ticket).Nodup)
    (hunit : ∀ f ∈ flights, ∀ ready, f.stage = .working ready → g.holds f.ticket = true) :
    inFlight flights g ≤ g.capacity := by
  have hholds : ∀ f ∈ flights.filter fun f => g.holds f.ticket || f.stage.ready?.isSome,
      f.ticket ∈ g.permits.map Permit.ticket := by
    intro f hf
    obtain ⟨hmem, hway⟩ := List.mem_filter.1 hf
    rw [← Gate.holds_iff]
    rcases Bool.or_eq_true_iff.1 hway with hholds | hworks
    · exact hholds
    · cases hstage : f.stage with
      | working ready => exact hunit f hmem ready hstage
      | idle | waiting | finished => simp [hstage, Stage.ready?] at hworks
  have hsub : (flights.filter fun f => g.holds f.ticket || f.stage.ready?.isSome).map
      Flight.ticket ⊆ g.permits.map Permit.ticket := by
    intro ticket hticket
    obtain ⟨f, hf, rfl⟩ := List.mem_map.1 hticket
    exact hholds f hf
  have hsubperm := List.subperm_of_subset (hdistinct.sublist (List.filter_sublist.map _)) hsub
  have hle := hsubperm.length_le
  rw [List.length_map, List.length_map, ← List.countP_eq_length_filter] at hle
  exact Nat.le_trans hle hsound.length_permits_le

theorem Booked.inFlight_le (h : Booked asked flights g) : inFlight flights g ≤ g.capacity :=
  Flight.inFlight_le h.sound h.distinct fun f hf => (h.stands f hf).granted

/-- **At every moment of a look** the actions under way are not more than the units. -/
theorem Passes.inFlight_le (h : Passes delay flights w flights' w')
    (hbooked : Booked asked flights w.gate) :
    inFlight flights' w'.gate ≤ w.gate.capacity := by
  cases h with
  | looked split polled =>
    subst split
    obtain ⟨hdone, -, hmoves⟩ := hbooked.pollAll_append polled
    rw [← hmoves.gate.capacity]
    exact hdone.inFlight_le
  | @asks before f rest done w' split polled =>
    subst split
    obtain ⟨hdone, -, hmoves⟩ := hbooked.pollAll_append polled
    have hf : f ∈ done ++ f :: rest := by simp
    have hasking := (hdone.stands f hf).moves_asking hdone.sound (hdone.one f hf)
    rw [← hmoves.gate.capacity, ← hasking.capacity]
    exact Flight.inFlight_le hasking.sound hdone.distinct fun other hother ready hready =>
      holds_asking ((hdone.stands other hother).granted ready hready)

end Flight

namespace World

/-- The moments of a run. -/
inductive Passes (context : Context) (started delay : Nat) :
    List (Flight σ β) → World σ → List (Flight σ β) → World σ → Prop
  | look {flights w flights' w'} (live : context.verdict? started w.now = none)
    (look : Flight.Passes delay flights w flights' w') :
    Passes context started delay flights w flights' w'
  | later {flights w flights₁ w₁ moment flights' w'}
    (live : context.verdict? started w.now = none)
    (polled : Flight.pollAll delay flights w = (.ok flights₁, w₁))
    (unfinished : Flight.results? flights₁ = none)
    (next : Flight.nextMoment? context flights₁ = some moment)
    (rest : Passes context started delay flights₁ { w₁ with now := moment } flights' w') :
    Passes context started delay flights w flights' w'

variable {context : Context} {started delay : Nat} {w w' : World σ}
  {flights flights' : List (Flight σ β)}

/-- The end of a run is one of its moments. -/
theorem passes_of_fly {fuel : Nat} {results : List β}
    (h : fly context started delay fuel flights w = (some (.ok results), w')) :
    ∃ flights', Passes context started delay flights w flights' w' ∧
      Flight.results? flights' = some results := by
  induction fuel generalizing flights w with
  | zero => cases h
  | succ fuel ih =>
    rw [fly] at h
    split at h
    · cases h
    next hlive =>
      split at h
      · cases h
      next flights₁ w₁ hpoll =>
        split at h
        next hresults =>
          cases h
          refine ⟨flights₁, .look hlive ?_, hresults⟩
          have hlooked := Flight.Passes.looked (List.append_nil flights).symm hpoll
          rwa [List.append_nil] at hlooked
        next hopen =>
          split at h
          · cases h
          next moment hnext =>
            obtain ⟨flights', hpasses, hresults⟩ := ih h
            exact ⟨flights', .later hlive hpoll hopen hnext hpasses, hresults⟩

/-- **At every moment of a run** the actions under way are not more than the units of the gate. -/
theorem Passes.inFlight_le (h : Passes context started delay flights w flights' w')
    (hbooked : Flight.Booked asked flights w.gate) :
    Flight.inFlight flights' w'.gate ≤ w.gate.capacity := by
  induction h with
  | look live look => exact look.inFlight_le hbooked
  | later live polled unfinished next rest ih =>
    obtain ⟨hbooked₁, -, hmoves⟩ := hbooked.pollAll polled
    rw [← hmoves.gate.capacity]
    exact ih hbooked₁

end World

/-- The gate of a world is used by nobody else. -/
theorem Gate.Idle.sound_world {w : World σ} (h : w.gate.Idle) : w.Sound fun _ => 1 where
  gate := h.sound _
  fresh := by
    rw [h.tickets_eq_nil]
    exact nofun
  one := fun _ _ => rfl

end QueryCache
