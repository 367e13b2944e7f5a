import QueryCache.Proofs.Plan.Run
import QueryCache.Proofs.Store.Logged

/-!
# Stores that answer alike

A run of a plan depends on nothing of the store but its answers and the time it takes. So a store
behind a log is asked the same and answers the same as without the log.

## Main definitions

* `AnswersAlike` : a function between the states of two stores that keeps what they answer.
* `World.map` : a world with another store.

## Main results

* `World.fanOut_map` : actions that run together on stores that answer alike.
* `Plan.run_map` : plans on stores that answer alike.
* `Plan.run_logged_forget` : a log changes nothing.
-/

namespace QueryCache

variable {τ σ β : Type}

/-- A function between the states of two stores that keeps what they answer and the time they take.
-/
structure AnswersAlike [CacheStore τ] [CacheStore σ] (φ : τ → σ) : Prop where
  call : ∀ (c : Call) (t : τ),
    CacheStore.call c (φ t) = ((CacheStore.call c t).1, φ (CacheStore.call c t).2)
  delay : ∀ t, CacheStore.delay (φ t) = CacheStore.delay t

/-- A world with another store. -/
def World.map (φ : τ → σ) (w : World τ) : World σ := { w with store := φ w.store }

namespace Flight

/-- Two actions have come equally far and do the same on two stores. -/
structure Alike (φ : τ → σ) (f : Flight τ β) (f' : Flight σ β) : Prop where
  ticket : f'.ticket = f.ticket
  stage : f'.stage = f.stage
  action : ∀ t, f'.action (φ t) = ((f.action t).1, φ (f.action t).2)

variable {φ : τ → σ} {f : Flight τ β} {f' : Flight σ β} {flights : List (Flight τ β)}
  {flights' : List (Flight σ β)}

/-- Looks at two actions come to the same. -/
inductive Matches (φ : τ → σ) {α α' : Type} (R : α → α' → Prop) :
    Except CacheError α × World τ → Except CacheError α' × World σ → Prop
  | error (e : CacheError) (w : World τ) : Matches φ R (.error e, w) (.error e, w.map φ)
  | ok {a a'} (w : World τ) (alike : R a a') : Matches φ R (.ok a, w) (.ok a', w.map φ)

theorem Alike.act (h : Alike φ f f') (w : World τ) :
    Matches φ (Alike φ) (f.act w) (f'.act (w.map φ)) := by
  have haction := h.action w.store
  rw [Flight.act, Flight.act, World.map, haction, h.ticket]
  rcases f.action w.store with ⟨e | result, t⟩
  · exact .error e { w with store := t }
  · exact .ok { w with store := t, gate := w.gate.drop f.ticket } ⟨rfl, rfl, h.action⟩

theorem Alike.pass (h : Alike φ f f') (delay : Nat) (w : World τ) :
    Matches φ (Alike φ) (f.pass delay w) (f'.pass delay (w.map φ)) := by
  have hgate : (w.map φ).gate = w.gate := rfl
  rw [Flight.pass, Flight.pass, hgate, h.ticket]
  split
  · split
    · exact h.act w
    · exact .ok w ⟨rfl, rfl, h.action⟩
  · split
    · exact .ok w ⟨rfl, rfl, h.action⟩
    · exact .error _ w

/-- **A look at an action** comes to the same on stores that answer alike. -/
theorem Alike.poll (h : Alike φ f f') (delay : Nat) (w : World τ) :
    Matches φ (Alike φ) (f.poll delay w) (f'.poll delay (w.map φ)) := by
  rw [Flight.poll, Flight.poll, h.stage, h.ticket]
  cases f.stage with
  | idle => exact h.pass delay { w with gate := w.gate.acquire f.ticket 1 }
  | waiting => exact h.pass delay w
  | working ready =>
    have hnow : (w.map φ).now = w.now := rfl
    simp only [hnow]
    split
    · exact h.act w
    · exact .ok w h
  | finished result => exact .ok w h

theorem pollAll_alike (h : List.Forall₂ (Alike φ) flights flights') (delay : Nat) (w : World τ) :
    Matches φ (List.Forall₂ (Alike φ)) (pollAll delay flights w)
      (pollAll delay flights' (w.map φ)) := by
  induction h generalizing w with
  | nil => exact .ok w .nil
  | @cons f f' rest rest' hf _ ih =>
    rw [pollAll, pollAll]
    have hfirst := hf.poll delay w
    generalize f.poll delay w = r, f'.poll delay (w.map φ) = r' at hfirst
    cases hfirst with
    | error e w₁ => exact .error e w₁
    | ok w₁ halike =>
      simp only
      have hrest := ih w₁
      generalize pollAll delay rest w₁ = r, pollAll delay rest' (w₁.map φ) = r' at hrest
      cases hrest with
      | error e w₂ => exact .error e w₂
      | ok w₂ hrest => exact .ok w₂ (.cons halike hrest)

theorem results?_alike (h : List.Forall₂ (Alike φ) flights flights') :
    results? flights' = results? flights := by
  induction h with
  | nil => rfl
  | @cons f f' rest rest' hf _ ih =>
    rw [results?, results?] at ih
    rw [results?, results?, List.mapM_cons, List.mapM_cons, hf.stage, ih]

theorem nextMoment?_alike (h : List.Forall₂ (Alike φ) flights flights') (context : Context) :
    nextMoment? context flights' = nextMoment? context flights := by
  have hready : (flights'.filterMap fun f => f.stage.ready?) =
      flights.filterMap fun f => f.stage.ready? := by
    induction h with
    | nil => rfl
    | @cons f f' rest rest' hf _ ih => rw [List.filterMap_cons, List.filterMap_cons, hf.stage, ih]
  rw [nextMoment?, nextMoment?, hready]

end Flight

namespace World

variable {φ : τ → σ} {context : Context} {started delay fuel : Nat} {flights : List (Flight τ β)}
  {flights' : List (Flight σ β)}

theorem map_abandon (h : List.Forall₂ (Flight.Alike φ) flights flights') (w : World τ) :
    (w.map φ).abandon flights' = (w.abandon flights).map φ := by
  have hgate (g : Gate) : flights'.foldl (fun g f => g.drop f.ticket) g =
      flights.foldl (fun g f => g.drop f.ticket) g := by
    induction h generalizing g with
    | nil => rfl
    | @cons f f' rest rest' hf _ ih => rw [List.foldl_cons, List.foldl_cons, hf.ticket, ih]
  rw [abandon, abandon, World.map, World.map, hgate]

/-- **A run** goes alike on stores that answer alike. -/
theorem fly_map (h : List.Forall₂ (Flight.Alike φ) flights flights') (w : World τ) :
    fly context started delay fuel flights' (w.map φ) =
      ((fly context started delay fuel flights w).1,
        (fly context started delay fuel flights w).2.map φ) := by
  induction fuel generalizing flights flights' w with
  | zero => rfl
  | succ fuel ih =>
    have hnow : (w.map φ).now = w.now := rfl
    rw [fly, fly, hnow]
    split
    · rw [map_abandon h]
    · have hlook := Flight.pollAll_alike h delay w
      generalize Flight.pollAll delay flights w = r,
        Flight.pollAll delay flights' (w.map φ) = r' at hlook
      cases hlook with
      | error e w₁ => simp only [map_abandon h]
      | @ok flights₁ flights₁' w₁ halike =>
        simp only [Flight.results?_alike halike, Flight.nextMoment?_alike halike]
        split
        · rfl
        · split
          · rfl
          next moment _ => exact ih halike { w₁ with now := moment }

theorem flightsOf_alike {actions : List (Action τ β)} {actions' : List (Action σ β)}
    (h : List.Forall₂ (fun action action' => ∀ t, action' (φ t) = ((action t).1, φ (action t).2))
      actions actions') (w : World τ) :
    List.Forall₂ (Flight.Alike φ) (w.flightsOf actions) ((w.map φ).flightsOf actions') := by
  have hnumbered (ticket : Nat → Nat) : List.Forall₂ (Flight.Alike φ)
      (actions.mapIdx fun i action => (⟨ticket i, action, .idle⟩ : Flight τ β))
      (actions'.mapIdx fun i action => ⟨ticket i, action, .idle⟩) := by
    induction h generalizing ticket with
    | nil => exact .nil
    | @cons action action' rest rest' haction _ ih =>
      rw [List.mapIdx_cons, List.mapIdx_cons]
      exact .cons ⟨rfl, rfl, haction⟩ (ih fun i => ticket (i + 1))
  exact hnumbered fun i => w.nextTicket + i

variable [CacheStore τ] [CacheStore σ]

/-- **Actions that run together** go alike on stores that answer alike. -/
theorem fanOut_map (hφ : AnswersAlike φ) {actions : List (Action τ β)}
    {actions' : List (Action σ β)}
    (h : List.Forall₂ (fun action action' => ∀ t, action' (φ t) = ((action t).1, φ (action t).2))
      actions actions') (w : World τ) :
    (w.map φ).fanOut context actions' =
      ((w.fanOut context actions).1, (w.fanOut context actions).2.map φ) := by
  have hdelay : CacheStore.delay (w.map φ).store = CacheStore.delay w.store := hφ.delay w.store
  rw [fanOut, fanOut, hdelay, ← h.length_eq]
  exact fly_map (flightsOf_alike h w) { w with nextTicket := w.nextTicket + actions.length }

theorem guarded_map (hφ : AnswersAlike φ) (w : World τ) (c : Call) :
    (w.map φ).guarded context c =
      ((w.guarded context c).1, (w.guarded context c).2.map φ) := by
  rw [guarded, guarded, fanOut_map hφ (.cons (hφ.call c) .nil) w]
  rcases w.fanOut context [CacheStore.call c] with ⟨- | e | results, w₁⟩
  · rfl
  · rfl
  · cases results <;> rfl

theorem guardedAll_map (hφ : AnswersAlike φ) (w : World τ) (calls : List Call) :
    (w.map φ).guardedAll context calls =
      ((w.guardedAll context calls).1, (w.guardedAll context calls).2.map φ) := by
  cases calls with
  | nil => rfl
  | cons c rest =>
    have hacting (c : Call) (t : τ) :
        (acting c : Action σ Unit) (φ t) = ((acting c t).1, φ (acting c t).2) := by
      rw [acting, acting, hφ.call c t]
      rcases CacheStore.call c t with ⟨e | reply, t₁⟩ <;> rfl
    have hactions : List.Forall₂ (fun (action : Action τ Unit) action' => ∀ t,
        action' (φ t) = ((action t).1, φ (action t).2))
        ((c :: rest).map acting) ((c :: rest).map acting) :=
      List.forall₂_map_left_iff.2 (List.forall₂_map_right_iff.2
        (List.forall₂_same.2 fun c _ => hacting c))
    rw [guardedAll_cons, guardedAll_cons, fanOut_map hφ hactions w]
    rcases w.fanOut context ((c :: rest).map acting) with ⟨- | e | results, w₁⟩ <;> rfl

end World

namespace Plan

variable {ν α : Type} [CacheStore τ] [CacheStore σ] {φ : τ → σ}

/-- **A plan** goes alike on stores that answer alike. -/
theorem run_map (hφ : AnswersAlike φ) (p : Plan ν α) (env : Environment ν) (w : World τ) :
    p.run env (w.map φ) = ((p.run env w).1, (p.run env w).2.map φ) := by
  induction p generalizing w with
  | done result => rfl
  | call c next ih =>
    have hnow : (w.map φ).now = w.now := rfl
    rw [run, run, hnow, World.guarded_map hφ w c]
    rcases w.guarded (env.contextAt w.now) c with ⟨- | reply, w₁⟩
    · rfl
    · exact ih reply w₁
  | batch calls next ih =>
    have hnow : (w.map φ).now = w.now := rfl
    rw [run, run, hnow, World.guardedAll_map hφ w calls]
    rcases w.guardedAll (env.contextAt w.now) calls with ⟨- | reply, w₁⟩
    · rfl
    · exact ih reply w₁
  | mint next ih => exact ih _ { w with minted := w.minted + 1 }
  | fetch query next ih => exact ih _ { w with fetched := w.fetched + 1 }

/-- **A log changes nothing**: without it the plan is answered the same. -/
theorem run_logged_forget (p : Plan ν α) (env : Environment ν) (w : World σ) :
    p.run env w = ((p.run env w.logged).1, (p.run env w.logged).2.map Logged.inner) :=
  run_map (⟨fun _ _ => rfl, fun _ => rfl⟩ : AnswersAlike Logged.inner) p env w.logged

end Plan

end QueryCache
