import QueryCache.Proofs.Plan.Steps
import QueryCache.Proofs.Store.Logged

/-!
# Errors of the calls of a plan

A plan hears of every error that the store answers, and of every call that the gate or the context
stops. What it does with the error is up to the plan; one that fails fast ends with it.

## Main definitions

* `Plan.Incurs` : an error of a call, as a run of a plan comes across it.
* `Plan.FailsFast` : a plan that ends with the first error of its calls that is of some kind.

## Main results

* `Plan.FailsFast.run_eq` : a plan that fails fast ends with the error it comes across.
* `Plan.run_logged` : a plan comes across every error in the log of the store.
-/

namespace QueryCache.Plan

variable {ν α β σ : Type} {p : Plan ν α} {e : CacheError}

/-! ### Failing fast -/

/-- Whatever is answered, the plan ends with the first error of its calls that is of some kind. -/
def FailsFast (S : CacheError → Prop) : Plan ν α → Prop
  | done _ => True
  | call _ next =>
    (∀ e, S e → next (.error e) = done (.error (.cache e))) ∧ ∀ reply, (next reply).FailsFast S
  | batch _ next =>
    (∀ e, S e → next (.error e) = done (.error (.cache e))) ∧ ∀ reply, (next reply).FailsFast S
  | mint next => ∀ id, (next id).FailsFast S
  | fetch _ next => ∀ reply, (next reply).FailsFast S

variable {S : CacheError → Prop}

theorem failsFast_pure (a : α) : (pure a : Plan ν α).FailsFast S := trivial

theorem failsFast_lift {ε : Type} (wrap : ε → Error) (x : Except ε α) :
    (lift wrap x : Plan ν α).FailsFast S := by
  cases x <;> trivial

theorem failsFast_call (c : Call) : (call c (lift .cache) : Plan ν c.Reply).FailsFast S :=
  ⟨fun _ _ => rfl, fun reply => failsFast_lift _ reply⟩

theorem failsFast_batch (calls : List Call) :
    (batch calls (lift .cache) : Plan ν Unit).FailsFast S :=
  ⟨fun _ _ => rfl, fun reply => failsFast_lift _ reply⟩

theorem failsFast_newId : (newId : Plan ν RecordId).FailsFast S := fun _ => trivial

/-- **Plans that fail fast** can be put together. -/
theorem FailsFast.recover {f : Except Error α → Plan ν β} (h : p.FailsFast S)
    (hf : ∀ result, (f result).FailsFast S)
    (herror : ∀ e, S e → f (.error (.cache e)) = done (.error (.cache e))) :
    (p.recover f).FailsFast S := by
  have hnext {next : Plan ν α} {e : CacheError} (he : S e)
      (h : next = done (.error (.cache e))) : next.recover f = done (.error (.cache e)) := by
    rw [h]
    exact herror e he
  induction p with
  | done result => exact hf result
  | call c next ih => exact ⟨fun e he => hnext he (h.1 e he), fun reply => ih reply (h.2 reply)⟩
  | batch calls next ih =>
    exact ⟨fun e he => hnext he (h.1 e he), fun reply => ih reply (h.2 reply)⟩
  | mint next ih => exact fun id => ih id (h id)
  | fetch query next ih => exact fun reply => ih reply (h reply)

theorem FailsFast.bind {f : α → Plan ν β} (h : p.FailsFast S) (hf : ∀ a, (f a).FailsFast S) :
    (p >>= f).FailsFast S := by
  refine h.recover (fun result => ?_) fun _ _ => rfl
  cases result with
  | ok a => exact hf a
  | error e => trivial

/-! ### Errors -/

variable [CacheStore σ] {env : Environment ν}

/-- A plan that goes on with the reply to a call. -/
theorem run_call_bind_eq {c : Call} {f : c.Reply → Plan ν α} (w : World σ) :
    ((call c (lift .cache) : Plan ν c.Reply) >>= f).run env w =
      match w.guarded (env.contextAt w.now) c with
      | (some (.ok reply), w) => (f reply).run env w
      | (some (.error e), w) => (some (.error (.cache e)), w)
      | (none, w) => (none, w) := by
  refine (run_recover _ _).trans ?_
  rw [run]
  rcases w.guarded (env.contextAt w.now) c with ⟨- | e | reply, w₁⟩ <;> rfl

/-- A run of the plan comes across an error: a call fails or is stopped, or one of the calls that
run together. -/
inductive Incurs (env : Environment ν) : Plan ν α → World σ → CacheError → Prop
  | call {c next w e w'} (run : w.guarded (env.contextAt w.now) c = (some (.error e), w')) :
    Incurs env (.call c next) w e
  | answered {c next w reply w' e} (run : w.guarded (env.contextAt w.now) c = (some reply, w'))
    (rest : Incurs env (next reply) w' e) : Incurs env (.call c next) w e
  | batch {calls next w e w'}
    (run : w.guardedAll (env.contextAt w.now) calls = (some (.error e), w')) :
    Incurs env (.batch calls next) w e
  | allAnswered {calls next w reply w' e}
    (run : w.guardedAll (env.contextAt w.now) calls = (some reply, w'))
    (rest : Incurs env (next reply) w' e) : Incurs env (.batch calls next) w e
  | minted {next w e}
    (rest : Incurs env (next (env.ids w.minted)) { w with minted := w.minted + 1 } e) :
    Incurs env (.mint next) w e
  | fetched {query next w e}
    (rest : Incurs env (next (env.primary query)) { w with fetched := w.fetched + 1 } e) :
    Incurs env (.fetch query next) w e

/-- **A plan that fails fast** ends with the error that it comes across. -/
theorem FailsFast.run_eq {w w' : World σ} {o : Option (Except Error α)} (h : p.FailsFast S)
    (hincurs : p.Incurs env w e) (he : S e) (hrun : p.run env w = (o, w')) :
    o = some (.error (.cache e)) := by
  induction hincurs with
  | call run =>
    rw [Plan.run, run] at hrun
    simp only [h.1 _ he] at hrun
    cases hrun
    rfl
  | answered run rest ih =>
    rw [Plan.run, run] at hrun
    exact ih (h.2 _) he hrun
  | batch run =>
    rw [Plan.run, run] at hrun
    simp only [h.1 _ he] at hrun
    cases hrun
    rfl
  | allAnswered run rest ih =>
    rw [Plan.run, run] at hrun
    exact ih (h.2 _) he hrun
  | minted rest ih =>
    rw [Plan.run] at hrun
    exact ih (h _) he hrun
  | fetched rest ih =>
    rw [Plan.run] at hrun
    exact ih (h _) he hrun

/-- What a run of a plan has added to the log: answers to calls that the plan may make, and the run
comes across every error among these. -/
structure Logs (env : Environment ν) (p : Plan ν α) (w w' : World (Logged σ))
    (answers : List Answer) : Prop where
  log : w'.store.answers = w.store.answers ++ answers
  errors : ∀ a ∈ answers, ∀ e, a.error? = some e → p.Incurs env w e
  calls : ∀ P F, p.AllSteps env.primary P F → ∀ a ∈ answers, P a.call

/-- A run logs what one of its steps adds, and then what the rest of it adds. -/
theorem Logs.append {q : Plan ν α} {w w₁ w₂ w' : World (Logged σ)} {first answers : List Answer}
    (h : q.Logs env w₂ w' answers) (hlog : w₁.store.answers = w.store.answers ++ first)
    (hstore : w₂.store = w₁.store)
    (herrors : ∀ a ∈ first, ∀ e, a.error? = some e → p.Incurs env w e)
    (hrest : ∀ e, q.Incurs env w₂ e → p.Incurs env w e)
    (hcalls : ∀ P F, p.AllSteps env.primary P F →
      (∀ a ∈ first, P a.call) ∧ q.AllSteps env.primary P F) :
    p.Logs env w w' (first ++ answers) where
  log := by rw [h.log, hstore, hlog, List.append_assoc]
  errors := by
    intro a ha e he
    rcases List.mem_append.1 ha with ha | ha
    · exact herrors a ha e he
    · exact hrest e (h.errors a ha e he)
  calls := by
    intro P F hP a ha
    rcases List.mem_append.1 ha with ha | ha
    · exact (hcalls P F hP).1 a ha
    · exact h.calls P F (hcalls P F hP).2 a ha

/-- **A plan comes across every error in the log**, and the log holds only calls that the plan may
make. -/
theorem run_logged {w w' : World (Logged σ)} {o : Option (Except Error α)}
    (hrun : p.run env w = (o, w')) : ∃ answers, p.Logs env w w' answers := by
  induction p generalizing w with
  | done result =>
    cases hrun
    exact ⟨[], (List.append_nil _).symm, nofun, fun _ _ _ => nofun⟩
  | call c next ih =>
    rw [run] at hrun
    split at hrun
    next reply w₁ hcall =>
      obtain ⟨answers, hlogs⟩ := ih reply hrun
      have hrest (e : CacheError) (h : (next reply).Incurs env w₁ e) := Incurs.answered hcall h
      rcases World.guarded_logged hcall with ⟨reply', hreply, hlog⟩ | ⟨hstore, -⟩
      · cases hreply
        refine ⟨_, hlogs.append hlog rfl (fun a ha e he => ?_) hrest fun P F hP =>
          ⟨List.forall_mem_singleton.2 hP.1, hP.2 reply⟩⟩
        rw [List.mem_singleton.1 ha] at he
        cases reply with
        | ok reply => cases he
        | error e' =>
          cases he
          exact .call hcall
      · have hlog : w₁.store.answers = w.store.answers ++ [] := by rw [hstore, List.append_nil]
        exact ⟨_, hlogs.append hlog rfl nofun hrest fun P F hP => ⟨nofun, hP.2 reply⟩⟩
    next w₁ hcall =>
      cases hrun
      rcases World.guarded_logged hcall with ⟨reply, hreply, -⟩ | ⟨hstore, -⟩
      · cases hreply
      · exact ⟨[], by rw [hstore, List.append_nil], nofun, fun _ _ _ => nofun⟩
  | batch calls next ih =>
    rw [run] at hrun
    split at hrun
    next reply w₁ hcalls =>
      obtain ⟨answers, hlogs⟩ := ih reply hrun
      obtain ⟨first, hadds⟩ := World.guardedAll_logged hcalls
      refine ⟨_, hlogs.append hadds.log rfl (fun a ha e he => ?_) (fun e => .allAnswered hcalls)
        fun P F hP => ⟨fun a ha => hP.1 _ (hadds.calls a ha), hP.2 reply⟩⟩
      rw [Option.some.inj (hadds.errors a ha e he)] at hcalls
      exact .batch hcalls
    next w₁ hcalls =>
      cases hrun
      obtain ⟨first, hadds⟩ := World.guardedAll_logged hcalls
      refine ⟨first, hadds.log, fun a ha e he => ?_, fun P F hP a ha => hP.1 _ (hadds.calls a ha)⟩
      cases hadds.errors a ha e he
  | mint next ih =>
    rw [run] at hrun
    obtain ⟨answers, hlogs⟩ := ih _ hrun
    exact ⟨answers, hlogs.log, fun a ha e he => .minted (hlogs.errors a ha e he),
      fun P F hP => hlogs.calls P F (hP _)⟩
  | fetch query next ih =>
    rw [run] at hrun
    obtain ⟨answers, hlogs⟩ := ih _ hrun
    exact ⟨answers, hlogs.log, fun a ha e he => .fetched (hlogs.errors a ha e he),
      fun P F hP => hlogs.calls P F hP.2⟩

/-- **A plan that begins with a call** goes on with the answer that is logged, fails with the error
that is logged, or is stopped before the call is made. -/
theorem run_call_bind {c : Call} {f : c.Reply → Plan ν α} {w w' : World (Logged σ)}
    {o : Option (Except Error α)}
    (hrun : ((call c (lift .cache) : Plan ν c.Reply) >>= f).run env w = (o, w')) :
    (∃ reply w₁, w₁.store.answers = w.store.answers ++ [⟨c, .ok reply⟩] ∧
      (f reply).run env w₁ = (o, w')) ∨
    (∃ e, o = some (.error (.cache e)) ∧
      w'.store.answers = w.store.answers ++ [⟨c, .error e⟩]) ∨
    (o = none ∨ ∃ e : CacheError, e.Stops ∧ o = some (.error (.cache e))) ∧
      w'.store.answers = w.store.answers := by
  rw [run_call_bind_eq] at hrun
  split at hrun
  next reply w₁ hcall =>
    refine .inl ⟨reply, w₁, ?_, hrun⟩
    exact Logged.answers_of_call (World.guarded_ok hcall).1
  next e w₁ hcall =>
    cases hrun
    rcases World.guarded_logged hcall with ⟨reply, hreply, hlog⟩ |
      ⟨hstore, hnone | ⟨e', he, hstops⟩⟩
    · cases hreply
      exact .inr (.inl ⟨e, rfl, hlog⟩)
    · cases hnone
    · cases he
      exact .inr (.inr ⟨.inr ⟨e, hstops, rfl⟩, by rw [hstore]⟩)
  next w₁ hcall =>
    cases hrun
    rcases World.guarded_logged hcall with ⟨reply, hreply, -⟩ | ⟨hstore, -⟩
    · cases hreply
    · exact .inr (.inr ⟨.inl rfl, by rw [hstore]⟩)

end QueryCache.Plan
