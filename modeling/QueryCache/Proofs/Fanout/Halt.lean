import QueryCache.Proofs.Fanout.Log

/-!
# What actions leave behind that do not all finish

Actions that run together may stop before all are finished: one of them fails, the gate turns one
away, the context ends the run, or the run waits for ever. Those that have acted by then have acted
one after the other, in some order, and at least one has not.

## Main definitions

* `Flight.pending` : the actions that are not finished.
* `Halt` : why a run stops, and what the failing action leaves.
* `Halts` : some actions act, and then the run stops.

## Main results

* `World.fly_halts`, `World.fanOut_halts` : what a run leaves that stops early.
* `World.guarded_halts`, `World.guardedAll_halts` : the same of a single call and of several calls.
-/

namespace QueryCache

variable {σ β : Type}

namespace Flight

/-- The action, unless it is finished. -/
def pending (f : Flight σ β) : List (Action σ β) :=
  if f.stage.result?.isSome then [] else [f.action]

variable {delay : Nat} {f f' : Flight σ β} {w w' : World σ} {flights flights' : List (Flight σ β)}

/-- Every action is logged or pending. -/
theorem map_action_perm (flights : List (Flight σ β)) :
    (flights.map Flight.action).Perm
      ((flights.flatMap Flight.logged).map Prod.fst ++ flights.flatMap Flight.pending) := by
  induction flights with
  | nil => exact .nil
  | cons f rest ih =>
    rw [List.map_cons, List.flatMap_cons, List.flatMap_cons, List.map_append]
    cases hresult : f.stage.result? with
    | none =>
      have hlogged : f.logged = [] := by rw [logged, hresult]; rfl
      have hpending : f.pending = [f.action] := by rw [pending, hresult]; rfl
      rw [hlogged, hpending]
      exact (ih.cons f.action).trans List.perm_middle.symm
    | some result =>
      have hlogged : f.logged = [(f.action, result)] := by rw [logged, hresult]; rfl
      have hpending : f.pending = [] := by rw [pending, hresult]; rfl
      rw [hlogged, hpending]
      exact ih.cons f.action

/-- What is pending before a step acts in it, or is pending after it. -/
theorem AllAdvance.pending {log : List (Action σ β × β)}
    (h : AllAdvance flights w flights' w' log) :
    (flights.flatMap Flight.pending).Perm
      (log.map Prod.fst ++ flights'.flatMap Flight.pending) := by
  have hbefore := map_action_perm flights
  have hafter := map_action_perm flights'
  have hlogged := (h.logged.map Prod.fst).append_right (flights'.flatMap Flight.pending)
  rw [List.map_append, List.append_assoc] at hlogged
  rw [h.action] at hafter
  exact (List.perm_append_left_iff _).1 (hbefore.symm.trans (hafter.trans hlogged))

theorem pending_ne_nil (h : results? flights = none) : flights.flatMap Flight.pending ≠ [] := by
  induction flights with
  | nil => cases h
  | cons f rest ih =>
    rw [results?, List.mapM_cons] at h
    rw [List.flatMap_cons, pending]
    cases hfirst : f.stage.result? with
    | none => simp
    | some result =>
      rw [hfirst] at h
      have hrest : results? rest = none := by
        rw [results?]
        cases hrest : rest.mapM fun f => f.stage.result? with
        | none => rfl
        | some results => simp [hrest] at h
      simpa using ih hrest

/-! ### Failing -/

theorem act_error {e : CacheError} (h : f.act w = (.error e, w')) :
    f.action w.store = (.error e, w'.store) ∧ w.SameCounts w' := by
  rw [act] at h
  split at h
  · cases h
  next e' store hact =>
    cases h
    exact ⟨hact, ⟨rfl, rfl⟩⟩

/-- Going on from the gate fails if the gate turns the action away or the action fails. -/
theorem pass_error {e : CacheError} (h : f.pass delay w = (.error e, w')) :
    (e = .gateClosed ∧ w'.store = w.store ∨ f.action w.store = (.error e, w'.store)) ∧
      w.SameCounts w' := by
  rw [pass] at h
  split at h
  · split at h
    · exact (act_error h).imp_left .inr
    · cases h
  · split at h
    · cases h
    · cases h
      exact ⟨.inl ⟨rfl, rfl⟩, ⟨rfl, rfl⟩⟩

/-- Only an action that is not finished fails. -/
theorem poll_error {e : CacheError} (h : f.poll delay w = (.error e, w')) :
    f.pending = [f.action] ∧
      (e = .gateClosed ∧ w'.store = w.store ∨ f.action w.store = (.error e, w'.store)) ∧
        w.SameCounts w' := by
  rw [poll] at h
  rw [pending]
  cases hstage : f.stage with
  | idle =>
    simp only [hstage] at h
    obtain ⟨hwhy, hcounts⟩ := pass_error h
    exact ⟨rfl, hwhy, ⟨hcounts.minted, hcounts.fetched⟩⟩
  | waiting =>
    simp only [hstage] at h
    exact ⟨rfl, pass_error h⟩
  | working ready =>
    simp only [hstage] at h
    split at h
    · exact ⟨rfl, (act_error h).imp_left .inr⟩
    · cases h
  | finished result =>
    simp only [hstage] at h
    cases h

end Flight

/-- Why a run of actions stops, and what it leaves: it waits for ever, the context ends it, the gate
turns an action away, or an action fails. -/
inductive Halt (actions : List (Action σ β)) (s : σ) : Option CacheError → σ → Prop
  | waits : Halt actions s none s
  | cancelled : Halt actions s (some .cancelled) s
  | timeout (elapsed : Nat) : Halt actions s (some (.timeout elapsed)) s
  | gateClosed : Halt actions s (some .gateClosed) s
  | failed {action e s'} (mem : action ∈ actions) (act : action s = (.error e, s')) :
      Halt actions s (some e) s'

theorem Halt.mono {actions actions' : List (Action σ β)} {s s' : σ} {o : Option CacheError}
    (h : Halt actions s o s') (hsub : actions ⊆ actions') : Halt actions' s o s' := by
  cases h with
  | waits => exact .waits
  | cancelled => exact .cancelled
  | timeout elapsed => exact .timeout elapsed
  | gateClosed => exact .gateClosed
  | failed mem act => exact .failed (hsub mem) act

theorem Halt.of_verdict {actions : List (Action σ β)} {s : σ} {context : Context}
    {started now : Nat} {e : CacheError} (h : context.verdict? started now = some e) :
    Halt actions s (some e) s := by
  rw [Context.verdict?] at h
  split at h
  · cases h
    exact .cancelled
  · split at h
    · cases h
      exact .timeout _
    · cases h

/-- Some actions act one after the other, in some order, and then the run stops while others are
left. -/
structure Halts (actions : List (Action σ β)) (w : World σ) (o : Option CacheError)
    (w' : World σ) (log : List (Action σ β × β)) (left : List (Action σ β)) (s : σ) : Prop where
  perm : actions.Perm (log.map Prod.fst ++ left)
  ne_nil : left ≠ []
  executes : Executes log w.store s
  halt : Halt left s o w'.store
  counts : w.SameCounts w'

/-- A run that goes on stops where the rest of it stops. -/
theorem Halts.after {flights flights' : List (Flight σ β)} {w w₁ w' : World σ}
    {o : Option CacheError} {log log' : List (Action σ β × β)} {left : List (Action σ β)} {s : σ}
    (hall : Flight.AllAdvance flights w flights' w₁ log)
    (h : Halts (flights'.flatMap Flight.pending) w₁ o w' log' left s) :
    Halts (flights.flatMap Flight.pending) w o w' (log ++ log') left s where
  perm := by
    rw [List.map_append, List.append_assoc]
    exact hall.pending.trans (h.perm.append_left _)
  ne_nil := h.ne_nil
  executes := hall.executes.append h.executes
  halt := h.halt
  counts := hall.counts.trans h.counts

/-- A run that stops at once. -/
theorem Halts.now {actions : List (Action σ β)} {w w' : World σ} {o : Option CacheError}
    (hleft : actions ≠ []) (halt : Halt actions w.store o w'.store) (hcounts : w.SameCounts w') :
    Halts actions w o w' [] actions w.store :=
  ⟨.refl _, hleft, rfl, halt, hcounts⟩

/-- **A look at all actions that ends with a failure.** -/
theorem Flight.pollAll_error {delay : Nat} {flights : List (Flight σ β)} {w w' : World σ}
    {e : CacheError} (h : pollAll delay flights w = (.error e, w')) :
    ∃ log left s, Halts (flights.flatMap pending) w (some e) w' log left s := by
  induction flights generalizing w with
  | nil => cases h
  | cons f rest ih =>
    rw [pollAll] at h
    cases hpoll : f.poll delay w with
    | mk first w₁ =>
      cases first with
      | error e' =>
        simp only [hpoll, Prod.mk.injEq, Except.error.injEq] at h
        obtain ⟨rfl, rfl⟩ := h
        obtain ⟨hpending, hwhy, hcounts⟩ := poll_error hpoll
        have hne : (f :: rest).flatMap pending ≠ [] := by simp [hpending]
        refine ⟨_, _, _, .now hne ?_ hcounts⟩
        rcases hwhy with ⟨rfl, hstore⟩ | hact
        · rw [hstore]
          exact .gateClosed
        · exact .failed (by simp [hpending]) hact
      | ok f₁ =>
        simp only [hpoll] at h
        obtain ⟨log, hf⟩ := poll_ok hpoll
        have hstep : AllAdvance (f :: rest) w (f₁ :: rest) w₁ log := by
          refine ⟨hf.executes, ?_, by rw [List.map_cons, List.map_cons, hf.action], hf.counts⟩
          rw [List.flatMap_cons, List.flatMap_cons, hf.logged, List.append_assoc, List.append_assoc]
          exact List.perm_append_comm.append_left _
        cases hrest : pollAll delay rest w₁ with
        | mk others w₂ =>
          cases others with
          | ok others => simp [hrest] at h
          | error e' =>
            simp only [hrest, Prod.mk.injEq, Except.error.injEq] at h
            obtain ⟨rfl, rfl⟩ := h
            obtain ⟨log', left, s, hhalts⟩ := ih hrest
            refine ⟨log ++ log', f₁.pending ++ left, s, .after hstep ?_⟩
            exact {
              perm := by
                rw [List.flatMap_cons]
                exact (hhalts.perm.append_left _).trans (List.perm_append_comm_assoc ..)
              ne_nil := by simp [hhalts.ne_nil]
              executes := hhalts.executes
              halt := hhalts.halt.mono (List.subset_append_right _ _)
              counts := hhalts.counts }

namespace World

variable {context : Context} {started delay : Nat} {w w' : World σ}

/-- **Actions that stop before all are finished** have acted in part, in some order. -/
theorem fly_halts {fuel : Nat} {flights : List (Flight σ β)}
    {r : Option (Except CacheError (List β))} {o : Option CacheError}
    (hopen : Flight.results? flights = none)
    (h : fly context started delay fuel flights w = (r, w')) (hr : r = o.map .error) :
    ∃ log left s, Halts (flights.flatMap Flight.pending) w o w' log left s := by
  have hleft := Flight.pending_ne_nil hopen
  induction fuel generalizing flights w with
  | zero =>
    rw [fly] at h
    cases h
    cases o with
    | none => exact ⟨_, _, _, .now hleft .waits ⟨rfl, rfl⟩⟩
    | some e => cases hr
  | succ fuel ih =>
    rw [fly] at h
    split at h
    next e hverdict =>
      cases h
      cases o with
      | none => cases hr
      | some e' =>
        cases hr
        exact ⟨_, _, _, .now hleft (.of_verdict hverdict) ⟨rfl, rfl⟩⟩
    next =>
      cases hpoll : Flight.pollAll delay flights w with
      | mk polled w₁ =>
        cases polled with
        | error e =>
          simp only [hpoll, Prod.mk.injEq] at h
          obtain ⟨rfl, rfl⟩ := h
          cases o with
          | none => cases hr
          | some e' =>
            cases hr
            obtain ⟨log, left, s, hhalts⟩ := Flight.pollAll_error hpoll
            exact ⟨log, left, s, ⟨hhalts.perm, hhalts.ne_nil, hhalts.executes, hhalts.halt,
              ⟨hhalts.counts.minted, hhalts.counts.fetched⟩⟩⟩
        | ok flights₁ =>
          simp only [hpoll] at h
          obtain ⟨log, hall⟩ := Flight.pollAll_ok hpoll
          split at h
          next results hresults =>
            cases h
            cases o <;> cases hr
          next hopen₁ =>
            have hleft₁ := Flight.pending_ne_nil hopen₁
            split at h
            · cases h
              cases o with
              | some e => cases hr
              | none => exact ⟨_, _, _, .after hall (.now hleft₁ .waits ⟨rfl, rfl⟩)⟩
            next moment _ =>
              obtain ⟨log', left, s, hhalts⟩ := ih hopen₁ h hleft₁
              exact ⟨_, _, _, .after hall ⟨hhalts.perm, hhalts.ne_nil, hhalts.executes, hhalts.halt,
                ⟨hhalts.counts.minted, hhalts.counts.fetched⟩⟩⟩

theorem results?_flightsOf {actions : List (Action σ β)} (hne : actions ≠ []) :
    Flight.results? (w.flightsOf actions) = none := by
  cases actions with
  | nil => exact (hne rfl).elim
  | cons action rest =>
    rw [flightsOf, List.mapIdx_cons, Flight.results?, List.mapM_cons]
    rfl

variable [CacheStore σ]

/-- **Actions that run together and do not all succeed** have acted in part, in some order. -/
theorem fanOut_halts {actions : List (Action σ β)} {r : Option (Except CacheError (List β))}
    {o : Option CacheError} (hne : actions ≠ []) (h : w.fanOut context actions = (r, w'))
    (hr : r = o.map .error) : ∃ log left s, Halts actions w o w' log left s := by
  obtain ⟨log, left, s, hhalts⟩ := fly_halts (results?_flightsOf hne) h hr
  have hpending := Flight.map_action_perm (w.flightsOf actions)
  rw [action_flightsOf, logged_flightsOf] at hpending
  exact ⟨log, left, s, ⟨hpending.trans hhalts.perm, hhalts.ne_nil, hhalts.executes, hhalts.halt,
    ⟨hhalts.counts.minted, hhalts.counts.fetched⟩⟩⟩

/-- A single call that is not answered stops before the store has acted. -/
theorem guarded_halts {c : Call} {r : Option (Except CacheError c.Reply)} {o : Option CacheError}
    (h : w.guarded context c = (r, w')) (hr : r = o.map .error) :
    Halt [CacheStore.call c] w.store o w'.store ∧ w.SameCounts w' := by
  have stops {r' : Option (Except CacheError (List c.Reply))}
      (hfan : w.fanOut context [CacheStore.call c] = (r', w')) (hr' : r' = o.map .error) :
      Halt [CacheStore.call c] w.store o w'.store ∧ w.SameCounts w' := by
    obtain ⟨log, left, s, hhalts⟩ := fanOut_halts (List.cons_ne_nil _ _) hfan hr'
    have hlog : log = [] := by
      have hlength := hhalts.perm.length_eq
      have hleft := List.length_pos_iff.2 hhalts.ne_nil
      rw [List.length_append, List.length_map, List.length_singleton] at hlength
      exact List.length_eq_zero_iff.1 (by omega)
    obtain rfl : w.store = s := by
      have hexec := hhalts.executes
      rwa [hlog] at hexec
    have hperm := hhalts.perm
    rw [hlog] at hperm
    exact ⟨hhalts.halt.mono hperm.symm.subset, hhalts.counts⟩
  rw [guarded] at h
  split at h
  next =>
    cases h
    cases o <;> cases hr
  next e w₁ hfan =>
    cases h
    cases o with
    | none => cases hr
    | some e' =>
      cases hr
      exact stops hfan rfl
  next r' w₁ hok herror hfan =>
    cases h
    cases o with
    | some e => cases hr
    | none =>
      rcases r' with - | e | results
      · exact stops hfan rfl
      · exact (herror e rfl).elim
      · cases results with
        | cons reply rest => exact (hok reply rest rfl).elim
        | nil =>
          obtain ⟨-, -, -, hlength, -⟩ := fanOut_ok hfan
          cases hlength

theorem acting_error {c : Call} {s s' : σ} {e : CacheError} (h : acting c s = (.error e, s')) :
    CacheStore.call c s = (.error e, s') := by
  rw [acting] at h
  split at h
  next => cases h
  next e' store hcall =>
    cases h
    exact hcall

/-- An order of the images of a list is that of the images of an order of the list. -/
theorem exists_perm_map {α γ : Type} {f : α → γ} {l : List α} {l' : List γ}
    (h : (l.map f).Perm l') : ∃ order : List α, l.Perm order ∧ order.map f = l' := by
  have hmap : List.Forall₂ (fun c a => c = f a) (l.map f) l :=
    List.forall₂_map_left_iff.2 (List.forall₂_same.2 fun _ _ => rfl)
  obtain ⟨order, horder, hperm⟩ := List.perm_comp_forall₂ h.symm hmap
  have heq : List.Forall₂ Eq l' (order.map f) := List.forall₂_map_right_iff.2 horder
  exact ⟨order, hperm.symm, (List.forall₂_eq_eq_eq ▸ heq).symm⟩

/-- **Calls that run together and are not all answered** are answered in part, in some order, and
then the run stops. -/
theorem guardedAll_halts {calls : List Call} {r : Option (Except CacheError Unit)}
    {o : Option CacheError} (h : w.guardedAll context calls = (r, w')) (hr : r = o.map .error) :
    ∃ (order left : List Call) (s : σ), calls.Perm (order ++ left) ∧ left ≠ [] ∧
      Answers order w.store s ∧ Halt (left.map acting) s o w'.store ∧ w.SameCounts w' := by
  have stops {r' : Option (Except CacheError (List Unit))} (hne : calls ≠ [])
      (hfan : w.fanOut context (calls.map acting) = (r', w')) (hr' : r' = o.map .error) :
      ∃ (order left : List Call) (s : σ), calls.Perm (order ++ left) ∧ left ≠ [] ∧
        Answers order w.store s ∧ Halt (left.map acting) s o w'.store ∧ w.SameCounts w' := by
    obtain ⟨log, left, s, hhalts⟩ := fanOut_halts (by simpa using hne) hfan hr'
    obtain ⟨all, hperm, hall⟩ := exists_perm_map hhalts.perm
    obtain ⟨order, others, rfl, horder, rfl⟩ := List.map_eq_append_iff.1 hall
    have hlog : List.Forall₂ (fun entry c => entry.1 = acting c) log order := by
      rw [← List.forall₂_map_left_iff (R := fun action c => action = acting c), ← horder]
      exact List.forall₂_map_left_iff.2 (List.forall₂_same.2 fun _ _ => rfl)
    exact ⟨order, others, s, hperm, by simpa using hhalts.ne_nil,
      answers_of_executes hlog hhalts.executes, hhalts.halt, hhalts.counts⟩
  cases calls with
  | nil =>
    cases h
    cases o <;> cases hr
  | cons c rest =>
    rw [guardedAll_cons] at h
    split at h
    next =>
      cases h
      cases o <;> cases hr
    next e w₁ herror =>
      cases h
      cases o with
      | none => cases hr
      | some e' =>
        cases hr
        exact stops (List.cons_ne_nil _ _) herror rfl
    next w₁ hnone =>
      cases h
      cases o with
      | some e => cases hr
      | none => exact stops (List.cons_ne_nil _ _) hnone rfl

end World

end QueryCache
