import QueryCache.Proofs.Fanout.Limits
import QueryCache.Proofs.Plan.Errors
import QueryCache.Proofs.Store.Alike

/-!
# Stores that are out of reach

A store that fails at every call, as one does that is not reached or not in time. A plan gets
nothing from it: the call that it begins with fails, is stopped, or waits for ever.

## Main definitions

* `CacheStore.Unreachable` : whatever the store is called for from now on, it is not reached.
* `OutOfReach` : the states from which a store is never reached, as a store of their own.
* `Plan.Unserved` : what comes of a plan that gets nothing from the store.

## Main results

* `OutOfReach.run_eq` : a store that is out of reach answers as its restriction to such states.
* `Plan.unserved_call_bind` : plans that begin with a call.
-/

namespace QueryCache

variable {σ : Type} [CacheStore σ]

namespace CacheStore

/-- What a store has become after some calls. -/
def after (s : σ) : List Call → σ
  | [] => s
  | c :: rest => after (CacheStore.call c s).2 rest

/-- Whatever the store is called for from now on, it fails as one that is not reached in time. -/
def Unreachable (s : σ) : Prop :=
  ∀ (before : List Call) (c : Call), ∃ e, (CacheStore.call c (after s before)).1 = .error e ∧
    e.isTransport = true ∧ e ≠ .cancelled

theorem Unreachable.call {s : σ} (h : Unreachable s) (c : Call) :
    Unreachable (CacheStore.call c s).2 :=
  fun before => h (c :: before)

end CacheStore

/-- **A store that refuses everything** is out of reach. -/
theorem FailingStore.unreachable (inner : MemoryStore) :
    CacheStore.Unreachable ({ inner := inner, mode := .all } : FailingStore) := by
  intro before
  induction before with
  | nil => exact fun c => ⟨FailingStore.refusal, rfl, rfl, nofun⟩
  | cons c rest ih => exact ih

/-- A state from which a store is never reached. -/
structure OutOfReach (σ : Type) [CacheStore σ] where
  store : σ
  unreachable : CacheStore.Unreachable store

namespace OutOfReach

instance : CacheStore (OutOfReach σ) where
  call c s := ((CacheStore.call c s.store).1, ⟨(CacheStore.call c s.store).2, s.unreachable.call c⟩)
  stats s := ((CacheStore.stats s.store).1, s)
  delay s := CacheStore.delay s.store

/-- **A store that is out of reach** answers as its restriction to such states. -/
theorem run_eq {ν α : Type} {w : World σ} (h : CacheStore.Unreachable w.store) (p : Plan ν α)
    (env : Plan.Environment ν) : ∃ w₀ : World (OutOfReach σ),
      p.run env w = ((p.run env w₀).1, (p.run env w₀).2.map OutOfReach.store) := by
  -- The restriction cannot leave these states, so no invariant has to be carried through a run.
  have halike : AnswersAlike (OutOfReach.store : OutOfReach σ → σ) :=
    ⟨fun _ _ => rfl, fun _ => rfl⟩
  exact ⟨_, Plan.run_map halike p env { w with store := ⟨w.store, h⟩ }⟩

/-- The error of a call says that the store was not reached in time, or the context was cancelled.
-/
theorem error_of_guarded {context : Context} {c : Call} {w w' : World (OutOfReach σ)}
    {e : CacheError} (h : w.guarded context c = (some (.error e), w')) :
    e.isTransport = true ∧ (e = .cancelled → context.cancelAt.isSome = true) := by
  rcases World.guarded_error h with ⟨now, hverdict⟩ | rfl | ⟨s, s', hcall⟩
  · rcases Context.verdict?_eq_some hverdict with ⟨rfl, hcancel⟩ | rfl
    · exact ⟨rfl, fun _ => hcancel⟩
    · exact ⟨rfl, nofun⟩
  · exact ⟨rfl, nofun⟩
  · obtain ⟨e', hfails, htransport, hnot⟩ := s.unreachable [] c
    have hsame : Except.error e' = Except.error e := hfails.symm.trans (congrArg Prod.fst hcall)
    cases hsame
    exact ⟨htransport, fun heq => (hnot heq).elim⟩

/-- No call is answered. -/
theorem not_guarded_ok {context : Context} {c : Call} {reply : c.Reply}
    {w w' : World (OutOfReach σ)} : w.guarded context c ≠ (some (.ok reply), w') := by
  intro h
  obtain ⟨e, hfails, -⟩ := w.store.unreachable [] c
  have hsame : Except.error e = Except.ok reply :=
    hfails.symm.trans (congrArg Prod.fst (World.guarded_ok h).1)
  cases hsame

end OutOfReach

namespace Plan

variable {ν α : Type} {env : Environment ν} {A : α → Prop} {o : Option (Except Error α)}

/-- What comes of a plan that gets nothing from the store: it waits for ever, ends as it does
without the store, or fails because the store was not reached in time or the context was cancelled.
-/
inductive Unserved (env : Environment ν) (A : α → Prop) : Option (Except Error α) → Prop
  | waits : Unserved env A none
  | without (a : α) (h : A a) : Unserved env A (some (.ok a))
  | fails (e : CacheError) (transport : e.isTransport = true)
    (cancel : e = .cancelled → env.context.cancelAt.isSome = true) :
    Unserved env A (some (.error (.cache e)))

/-- **A plan that begins with a call** gets nothing from a store that is out of reach. -/
theorem unserved_call_bind {c : Call} {f : c.Reply → Plan ν α} {w w' : World (OutOfReach σ)}
    (hrun : ((call c (lift .cache) : Plan ν c.Reply) >>= f).run env w = (o, w')) :
    Unserved env A o := by
  rw [run_call_bind_eq] at hrun
  split at hrun
  next hcall => exact (OutOfReach.not_guarded_ok hcall).elim
  next e _ hcall =>
    cases hrun
    obtain ⟨htransport, hcancel⟩ := OutOfReach.error_of_guarded hcall
    rw [Environment.contextAt, Context.cancelAt_orTimeout] at hcancel
    exact .fails e htransport hcancel
  next =>
    cases hrun
    exact .waits

end Plan

end QueryCache
