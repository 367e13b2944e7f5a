import Mathlib.Data.List.Perm.Basic
import QueryCache.Fanout

/-!
# What actions that run together leave behind

Actions that run together act one at a time, in an order that the gate and the delays decide. Each
acts at most once, and if all succeed each has acted once. So the store is left as by all actions
one after the other, in some order.

## Main definitions

* `Executes` : a log of actions with their results, one after the other.
* `Flight.logged` : the actions that are finished, with their results.

## Main results

* `Flight.pollAll_ok`, `World.fly_ok` : what one look at all actions adds to the log, and a whole
  run.
* `World.fanOut_ok` : actions that run together and succeed leave what they leave in some order.
* `World.guarded_ok`, `World.guardedAll_ok` : the same of a single call and of several calls.
-/

namespace QueryCache

variable {σ β : Type}

/-- An action on a store. -/
abbrev Action (σ β : Type) := σ → Except CacheError β × σ

/-- The actions of a log succeed one after the other, with the results of the log. -/
def Executes : List (Action σ β × β) → σ → σ → Prop
  | [], s, s' => s = s'
  | (action, result) :: log, s, s' => ∃ m, action s = (.ok result, m) ∧ Executes log m s'

theorem Executes.append {log log' : List (Action σ β × β)} {s m s' : σ} (h : Executes log s m)
    (h' : Executes log' m s') : Executes (log ++ log') s s' := by
  induction log generalizing s with
  | nil =>
    obtain rfl : s = m := h
    exact h'
  | cons entry rest ih =>
    obtain ⟨n, hact, hrest⟩ := h
    exact ⟨n, hact, ih hrest⟩

/-- Identifiers minted and fetches made are the same in two worlds. -/
structure World.SameCounts (w w' : World σ) : Prop where
  minted : w'.minted = w.minted
  fetched : w'.fetched = w.fetched

theorem World.SameCounts.trans {w w' w'' : World σ} (h : w.SameCounts w') (h' : w'.SameCounts w'') :
    w.SameCounts w'' :=
  ⟨h'.minted.trans h.minted, h'.fetched.trans h.fetched⟩

namespace Flight

/-- The action with its result, once it is finished. -/
def logged (f : Flight σ β) : List (Action σ β × β) :=
  f.stage.result?.toList.map fun result => (f.action, result)

/-- A flight goes on: the action acts or not, and is logged if it does. -/
structure Advances (f : Flight σ β) (w : World σ) (f' : Flight σ β) (w' : World σ)
    (log : List (Action σ β × β)) : Prop where
  executes : Executes log w.store w'.store
  logged : f'.logged = f.logged ++ log
  action : f'.action = f.action
  counts : w.SameCounts w'

variable {delay : Nat} {f f' : Flight σ β} {w w' : World σ}

theorem act_ok (h : f.act w = (.ok f', w')) (hf : f.logged = []) :
    ∃ log, f.Advances w f' w' log := by
  rw [act] at h
  cases hact : f.action w.store with
  | mk result store =>
    cases result with
    | error e => simp [hact] at h
    | ok result =>
      simp only [hact, Prod.mk.injEq, Except.ok.injEq] at h
      obtain ⟨rfl, rfl⟩ := h
      exact ⟨[(f.action, result)], ⟨⟨store, hact, rfl⟩, by rw [hf]; rfl, rfl, ⟨rfl, rfl⟩⟩⟩

theorem pass_ok (h : f.pass delay w = (.ok f', w')) (hf : f.logged = []) :
    ∃ log, f.Advances w f' w' log := by
  rw [pass] at h
  split at h
  · split at h
    · exact act_ok h hf
    · cases h
      exact ⟨[], ⟨rfl, by rw [hf]; rfl, rfl, ⟨rfl, rfl⟩⟩⟩
  · split at h
    · cases h
      exact ⟨[], ⟨rfl, by rw [hf]; rfl, rfl, ⟨rfl, rfl⟩⟩⟩
    · cases h

/-- A look at an action lets it act at most once. -/
theorem poll_ok (h : f.poll delay w = (.ok f', w')) : ∃ log, f.Advances w f' w' log := by
  rw [poll] at h
  cases hstage : f.stage with
  | idle =>
    simp only [hstage] at h
    obtain ⟨log, hlog⟩ := pass_ok h (by rw [logged, hstage]; rfl)
    exact ⟨log, ⟨hlog.executes, hlog.logged, hlog.action,
      ⟨hlog.counts.minted, hlog.counts.fetched⟩⟩⟩
  | waiting =>
    simp only [hstage] at h
    exact pass_ok h (by rw [logged, hstage]; rfl)
  | working ready =>
    simp only [hstage] at h
    split at h
    · exact act_ok h (by rw [logged, hstage]; rfl)
    · cases h
      exact ⟨[], ⟨rfl, (List.append_nil _).symm, rfl, ⟨rfl, rfl⟩⟩⟩
  | finished result =>
    simp only [hstage] at h
    cases h
    exact ⟨[], ⟨rfl, (List.append_nil _).symm, rfl, ⟨rfl, rfl⟩⟩⟩

/-- Flights go on: some actions act in some order, and are logged. -/
structure AllAdvance (flights : List (Flight σ β)) (w : World σ) (flights' : List (Flight σ β))
    (w' : World σ) (log : List (Action σ β × β)) : Prop where
  executes : Executes log w.store w'.store
  logged : (flights'.flatMap Flight.logged).Perm (flights.flatMap Flight.logged ++ log)
  action : flights'.map Flight.action = flights.map Flight.action
  counts : w.SameCounts w'

theorem AllAdvance.trans {flights flights' flights'' : List (Flight σ β)} {w'' : World σ}
    {log log' : List (Action σ β × β)} (h : AllAdvance flights w flights' w' log)
    (h' : AllAdvance flights' w' flights'' w'' log') :
    AllAdvance flights w flights'' w'' (log ++ log') where
  executes := h.executes.append h'.executes
  logged := by
    rw [← List.append_assoc]
    exact h'.logged.trans (h.logged.append_right log')
  action := h'.action.trans h.action
  counts := h.counts.trans h'.counts

theorem append_swap {α : Type} {a b c d e : List α} (h : d.Perm (c ++ e)) :
    (a ++ b ++ d).Perm (a ++ c ++ (b ++ e)) := by
  have hright : (b ++ d).Perm (c ++ (b ++ e)) := (h.append_left b).trans
    (by rw [← List.append_assoc, ← List.append_assoc]; exact List.perm_append_comm.append_right e)
  rw [List.append_assoc, List.append_assoc]
  exact hright.append_left a

/-- **A look at all actions** lets each act at most once. -/
theorem pollAll_ok {flights flights' : List (Flight σ β)}
    (h : pollAll delay flights w = (.ok flights', w')) :
    ∃ log, AllAdvance flights w flights' w' log := by
  induction flights generalizing flights' w with
  | nil =>
    cases h
    exact ⟨[], ⟨rfl, .refl _, rfl, ⟨rfl, rfl⟩⟩⟩
  | cons f rest ih =>
    rw [pollAll] at h
    cases hpoll : f.poll delay w with
    | mk first w₁ =>
      cases first with
      | error e => simp [hpoll] at h
      | ok f₁ =>
        simp only [hpoll] at h
        cases hrest : pollAll delay rest w₁ with
        | mk others w₂ =>
          cases others with
          | error e => simp [hrest] at h
          | ok others =>
            simp only [hrest, Prod.mk.injEq, Except.ok.injEq] at h
            obtain ⟨rfl, rfl⟩ := h
            obtain ⟨log, hf⟩ := poll_ok hpoll
            obtain ⟨log', hall⟩ := ih hrest
            refine ⟨log ++ log', hf.executes.append hall.executes, ?_, ?_,
              hf.counts.trans hall.counts⟩
            · rw [List.flatMap_cons, List.flatMap_cons, hf.logged]
              exact append_swap hall.logged
            · rw [List.map_cons, List.map_cons, hf.action, hall.action]

/-- The results of finished actions are those that are logged. -/
theorem results?_eq_some {flights : List (Flight σ β)} {results : List β}
    (h : results? flights = some results) :
    flights.flatMap Flight.logged = (flights.map Flight.action).zip results ∧
      results.length = flights.length := by
  induction flights generalizing results with
  | nil =>
    cases h
    exact ⟨rfl, rfl⟩
  | cons f rest ih =>
    rw [results?, List.mapM_cons] at h
    cases hfirst : f.stage.result? with
    | none => simp [hfirst] at h
    | some result =>
      cases hrest : results? rest with
      | none =>
        rw [results?] at hrest
        simp [hfirst, hrest] at h
      | some others =>
        obtain ⟨hlogged, hlength⟩ := ih hrest
        rw [results?] at hrest
        simp only [hfirst, hrest] at h
        cases h
        refine ⟨?_, by rw [List.length_cons, List.length_cons, hlength]⟩
        rw [List.flatMap_cons, hlogged, Flight.logged, hfirst]
        rfl

end Flight

namespace World

variable {context : Context} {started delay : Nat} {w w' : World σ} {results : List β}

/-- **Actions that run until all are finished** have each acted once, in some order. -/
theorem fly_ok {fuel : Nat} {flights : List (Flight σ β)}
    (h : fly context started delay fuel flights w = (some (.ok results), w')) :
    ∃ flights' log, Flight.AllAdvance flights w flights' w' log ∧
      Flight.results? flights' = some results := by
  induction fuel generalizing flights w with
  | zero => cases h
  | succ fuel ih =>
    rw [fly] at h
    split at h
    · cases h
    · cases hpoll : Flight.pollAll delay flights w with
      | mk polled w₁ =>
        cases polled with
        | error e => simp [hpoll] at h
        | ok flights₁ =>
          simp only [hpoll] at h
          obtain ⟨log, hall⟩ := Flight.pollAll_ok hpoll
          split at h
          · cases h
            exact ⟨flights₁, log, hall, ‹_›⟩
          · split at h
            · cases h
            · obtain ⟨flights', log', hmore, hresults⟩ := ih h
              have hnow : Flight.AllAdvance flights₁ w₁ flights' w' log' :=
                ⟨hmore.executes, hmore.logged, hmore.action, ⟨hmore.counts.minted,
                  hmore.counts.fetched⟩⟩
              exact ⟨flights', log ++ log', hall.trans hnow, hresults⟩

theorem logged_flightsOf (actions : List (Action σ β)) :
    (w.flightsOf actions).flatMap Flight.logged = [] := by
  rw [List.flatMap_eq_nil_iff]
  intro f hf
  obtain ⟨i, hi, rfl⟩ := List.mem_mapIdx.1 hf
  rfl

theorem action_flightsOf (actions : List (Action σ β)) :
    (w.flightsOf actions).map Flight.action = actions := by
  refine List.ext_getElem (by simp [flightsOf]) fun i _ _ => ?_
  simp [flightsOf]

variable [CacheStore σ]

/-- **Actions that run together and succeed** have acted one after the other, in some order. -/
theorem fanOut_ok {actions : List (Action σ β)}
    (h : w.fanOut context actions = (some (.ok results), w')) :
    ∃ log, Executes log w.store w'.store ∧ log.Perm (actions.zip results) ∧
      results.length = actions.length ∧ w.SameCounts w' := by
  obtain ⟨flights', log, hall, hresults⟩ := fly_ok h
  obtain ⟨hlogged, hlength⟩ := Flight.results?_eq_some hresults
  have haction := hall.action.trans (action_flightsOf actions)
  have hperm := hall.logged
  rw [logged_flightsOf, List.nil_append, hlogged, haction] at hperm
  refine ⟨log, hall.executes, hperm.symm, ?_, ⟨hall.counts.minted, hall.counts.fetched⟩⟩
  rw [hlength, ← haction, List.length_map]

/-- A single call that succeeds is answered by the store. -/
theorem guarded_ok {c : Call} {reply : c.Reply}
    (h : w.guarded context c = (some (.ok reply), w')) :
    CacheStore.call c w.store = (.ok reply, w'.store) ∧ w.SameCounts w' := by
  rw [guarded] at h
  split at h
  next reply' rest w₁ hfan =>
    cases h
    obtain ⟨log, hexec, hperm, hlength, hcounts⟩ := fanOut_ok hfan
    have hlog : log = [(CacheStore.call c, reply)] := by simpa using hperm
    rw [hlog] at hexec
    obtain ⟨m, hcall, rfl⟩ := hexec
    exact ⟨hcall, hcounts⟩
  next => cases h
  next => cases h

/-- A call without a look at its reply. -/
def acting (c : Call) : Action σ Unit := fun store =>
  match CacheStore.call c store with
  | (.ok _, store) => (.ok (), store)
  | (.error e, store) => (.error e, store)

theorem acting_ok {c : Call} {s s' : σ} {u : Unit} (h : acting c s = (.ok u, s')) :
    ∃ reply, CacheStore.call c s = (.ok reply, s') := by
  rw [acting] at h
  split at h
  next reply store hcall =>
    cases h
    exact ⟨reply, hcall⟩
  next => cases h

/-- The calls of a list are answered by the store one after the other. -/
inductive Answers : List Call → σ → σ → Prop
  | nil {s} : Answers [] s s
  | cons {c reply rest s m s'} (first : CacheStore.call c s = (.ok reply, m))
      (others : Answers rest m s') : Answers (c :: rest) s s'

theorem answers_of_executes {order : List Call} {log : List (Action σ Unit × Unit)} {s s' : σ}
    (hlog : List.Forall₂ (fun entry c => entry.1 = acting c) log order)
    (h : Executes log s s') : Answers order s s' := by
  induction hlog generalizing s with
  | nil =>
    obtain rfl : s = s' := h
    exact .nil
  | @cons entry c log order hentry _ ih =>
    obtain ⟨m, hact, hrest⟩ := h
    rw [hentry] at hact
    obtain ⟨reply, hcall⟩ := acting_ok hact
    exact .cons hcall (ih hrest)

theorem forall₂_zip_acting {calls : List Call} {results : List Unit}
    (h : results.length = calls.length) :
    List.Forall₂ (fun (entry : Action σ Unit × Unit) c => entry.1 = acting c)
      ((calls.map acting).zip results) calls := by
  induction calls generalizing results with
  | nil => exact .nil
  | cons c rest ih =>
    cases results with
    | nil => cases h
    | cons result results => exact .cons rfl (ih (Nat.succ.inj h))

theorem guardedAll_cons (w : World σ) (context : Context) (c : Call) (rest : List Call) :
    w.guardedAll context (c :: rest) = match w.fanOut context ((c :: rest).map acting) with
      | (some (.ok _), w) => (some (.ok ()), w)
      | (some (.error e), w) => (some (.error e), w)
      | (none, w) => (none, w) := rfl

/-- **Calls that run together and succeed** are answered by the store one after the other, in some
order. -/
theorem guardedAll_ok {calls : List Call}
    (h : w.guardedAll context calls = (some (.ok ()), w')) :
    (∃ order : List Call, order.Perm calls ∧ Answers order w.store w'.store) ∧
      w.SameCounts w' := by
  cases calls with
  | nil =>
    cases h
    exact ⟨⟨[], .refl _, .nil⟩, ⟨rfl, rfl⟩⟩
  | cons c rest =>
    rw [guardedAll_cons] at h
    split at h
    next results w₁ hresults =>
      cases h
      obtain ⟨log, hexec, hperm, hlength, hcounts⟩ := fanOut_ok hresults
      rw [List.length_map] at hlength
      obtain ⟨order, hlog, horder⟩ := List.perm_comp_forall₂ hperm (forall₂_zip_acting hlength)
      exact ⟨⟨order, horder, answers_of_executes hlog hexec⟩, hcounts⟩
    next => cases h
    next => cases h

end World

end QueryCache
