import QueryCache.Proofs.Fanout.Limits
import QueryCache.Proofs.Plan.Errors

/-!
# Plans under a context that is over

If its context has been cancelled or its deadline has come, then a plan still takes the steps that
need no store. Each call fails with the error of the context, before the gate or the store is
asked.

## Main definitions

* `Context.Dead` : a context is over, with the error that it stops work with.
* `World.Untouched` : time has not passed, and neither the store nor the gate has been asked.

## Main results

* `Plan.run_dead` : plans under a context that is over.
* `Plan.FailsFast.run_dead` : such a plan fails with the error of the context, or it makes no call.
-/

namespace QueryCache

/-! ### Contexts -/

namespace Context

variable {c : Context} {now : Nat} {e : CacheError}

/-- The context is over: it has been cancelled, or its deadline has come and it has not been
cancelled. -/
inductive Dead (c : Context) (now : Nat) : CacheError → Prop
  | cancelled (cancel : reached c.cancelAt now = true) : Dead c now .cancelled
  | expired (cancel : reached c.cancelAt now = false) (deadline : reached c.deadline now = true) :
    Dead c now (.timeout 0)

/-- A context is over at the moment of its cancellation and of its deadline, and from then on. -/
theorem exists_dead_iff : (∃ e, c.Dead now e) ↔
    reached c.cancelAt now = true ∨ reached c.deadline now = true := by
  refine ⟨fun ⟨e, h⟩ => ?_, fun h => ?_⟩
  · cases h with
    | cancelled cancel => exact .inl cancel
    | expired _ deadline => exact .inr deadline
  · cases hcancel : reached c.cancelAt now with
    | true => exact ⟨_, .cancelled hcancel⟩
    | false =>
      rw [hcancel] at h
      exact ⟨_, .expired hcancel (h.resolve_left nofun)⟩

theorem Dead.verdict? (h : c.Dead now e) : c.verdict? now now = some e := by
  cases h with
  | cancelled cancel => rw [Context.verdict?, if_pos cancel]
  | expired cancel deadline =>
    rw [Context.verdict?, if_neg (Bool.eq_false_iff.1 cancel), if_pos deadline, Nat.sub_self]

/-- A time limit for single calls does not bring a context back. -/
theorem Dead.orTimeout (h : c.Dead now e) (start : Nat) (timeout : Option Nat) :
    (c.orTimeout start timeout).Dead now e := by
  cases h with
  | cancelled cancel => exact .cancelled (by rwa [cancelAt_orTimeout])
  | expired cancel deadline =>
    obtain ⟨limit, hlimit⟩ : ∃ limit, c.deadline = some limit := by
      cases hlimit : c.deadline with
      | none => simp [hlimit, reached] at deadline
      | some limit => exact ⟨limit, rfl⟩
    have hsame : c.orTimeout start timeout = c := by simp [Context.orTimeout, hlimit]
    rw [hsame]
    exact .expired cancel deadline

end Context

/-! ### Plans -/

variable {ν α β σ : Type}

/-- Time has not passed, and neither the store nor the gate has changed. -/
structure World.Untouched (w w' : World σ) : Prop where
  now : w'.now = w.now
  store : w'.store = w.store
  gate : w'.gate = w.gate

theorem World.Sound.skip {asked : Nat → Nat} {w : World σ} (h : w.Sound asked) (n : Nat) :
    ({ w with nextTicket := w.nextTicket + n } : World σ).Sound asked where
  gate := h.gate
  fresh ticket hmem := Nat.lt_add_right n (h.fresh ticket hmem)
  one ticket hle := h.one ticket (Nat.le_trans (Nat.le_add_right _ _) hle)

namespace Plan

variable {env : Environment ν} {p : Plan ν α} {w w' : World σ} {asked : Nat → Nat} {e : CacheError}

theorem Environment.dead_contextAt (h : env.context.Dead w.now e) :
    (env.contextAt w.now).verdict? w.now w.now = some e :=
  (h.orTimeout w.now env.timeout).verdict?

variable [CacheStore σ]

/-- A call fails with the error of the context. -/
theorem run_call_bind_dead (hsound : w.Sound asked) (hdead : env.context.Dead w.now e) {c : Call}
    (f : c.Reply → Plan ν α) : ((call c (lift .cache) : Plan ν c.Reply) >>= f).run env w =
      (some (.error (.cache e)), { w with nextTicket := w.nextTicket + 1 }) := by
  rw [run_call_bind_eq, hsound.guarded_dead (Environment.dead_contextAt hdead)]

/-- **A plan under a context that is over** ends, and neither the gate nor the store has been
asked. -/
theorem run_dead (hsound : w.Sound asked) (hdead : env.context.Dead w.now e) (p : Plan ν α) :
    ∃ r w', p.run env w = (some r, w') ∧ w.Untouched w' ∧ w'.Sound asked := by
  -- The clock stands still on the way, so the context is over for every later call as well.
  induction p generalizing w with
  | done result => exact ⟨result, w, rfl, ⟨rfl, rfl, rfl⟩, hsound⟩
  | call c next ih =>
    obtain ⟨r, w', hrun, hsame, hsound'⟩ := ih (.error e) (hsound.skip 1) hdead
    rw [run, hsound.guarded_dead (Environment.dead_contextAt hdead)]
    exact ⟨r, w', hrun, ⟨hsame.now, hsame.store, hsame.gate⟩, hsound'⟩
  | batch calls next ih =>
    cases calls with
    | nil =>
      obtain ⟨r, w', hrun, hsame, hsound'⟩ := ih (.ok ()) hsound hdead
      exact ⟨r, w', hrun, hsame, hsound'⟩
    | cons c rest =>
      obtain ⟨r, w', hrun, hsame, hsound'⟩ := ih (.error e) (hsound.skip (rest.length + 1)) hdead
      rw [run, hsound.guardedAll_dead (Environment.dead_contextAt hdead)]
      exact ⟨r, w', hrun, ⟨hsame.now, hsame.store, hsame.gate⟩, hsound'⟩
  | mint next ih =>
    obtain ⟨r, w', hrun, hsame, hsound'⟩ := ih (env.ids w.minted)
      (w := { w with minted := w.minted + 1 }) (hsound.of_gate rfl rfl) hdead
    exact ⟨r, w', hrun, ⟨hsame.now, hsame.store, hsame.gate⟩, hsound'⟩
  | fetch query next ih =>
    obtain ⟨r, w', hrun, hsame, hsound'⟩ := ih (env.primary query)
      (w := { w with fetched := w.fetched + 1 }) (hsound.of_gate rfl rfl) hdead
    exact ⟨r, w', hrun, ⟨hsame.now, hsame.store, hsame.gate⟩, hsound'⟩

/-- **A plan that fails fast** fails with the error of a context that is over, or it goes the same
way under every context. -/
theorem FailsFast.run_dead {S : CacheError → Prop} (h : p.FailsFast S) (he : S e)
    (hsound : w.Sound asked) (hdead : env.context.Dead w.now e) {r : Except Error α}
    (hrun : p.run env w = (some r, w')) : r = .error (.cache e) ∨
      ∀ context, p.run { env with context := context } w = (some r, w') := by
  induction p generalizing w with
  | done result => exact .inr fun _ => hrun
  | call c next ih =>
    rw [run, hsound.guarded_dead (Environment.dead_contextAt hdead)] at hrun
    simp only [h.1 e he] at hrun
    cases hrun
    exact .inl rfl
  | batch calls next ih =>
    cases calls with
    | nil => exact ih (.ok ()) (h.2 _) hsound hdead hrun
    | cons c rest =>
      rw [run, hsound.guardedAll_dead (Environment.dead_contextAt hdead)] at hrun
      simp only [h.1 e he] at hrun
      cases hrun
      exact .inl rfl
  | mint next ih =>
    exact ih _ (w := { w with minted := w.minted + 1 }) (h _) (hsound.of_gate rfl rfl) hdead hrun
  | fetch query next ih =>
    exact ih _ (w := { w with fetched := w.fetched + 1 }) (h _) (hsound.of_gate rfl rfl) hdead hrun

/-- A plan without calls goes the same way under every context. -/
theorem AllSteps.run_eq {F : Query → Prop} (h : p.AllSteps env.primary (fun _ => False) F)
    (context : Context) : p.run { env with context := context } w = p.run env w := by
  induction p generalizing w with
  | done result => rfl
  | call c next ih => exact h.1.elim
  | batch calls next ih =>
    cases calls with
    | nil => exact ih (.ok ()) (h.2 _)
    | cons c rest => exact (h.1 c List.mem_cons_self).elim
  | mint next ih => exact ih _ (w := { w with minted := w.minted + 1 }) (h _)
  | fetch query next ih => exact ih _ (w := { w with fetched := w.fetched + 1 }) h.2

end Plan

end QueryCache
