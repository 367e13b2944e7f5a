import QueryCache.Proofs.Fanout.Halt
import QueryCache.Proofs.Store.Contents

/-!
# What a store has answered

Any store can be put behind a log of the calls it is asked and of what it answers to each. A call
of a run under a context is answered and logged, or it is never made. Calls that run together are
logged in the order in which the store acts on them; the run fails with the error that is logged,
which comes last.

## Main definitions

* `Answer` : a call with what a store answers.
* `Logged` : a store with a log of its answers.

## Main results

* `World.guarded_logged`, `World.guardedAll_logged` : what calls leave in the log.
-/

namespace QueryCache

/-- A call with what a store answers. -/
structure Answer where
  call : Call
  reply : Except CacheError call.Reply

namespace Answer

/-- The error of an answer. -/
def error? (a : Answer) : Option CacheError :=
  match a.reply with
  | .ok _ => none
  | .error e => some e

end Answer

/-- A store with a log of its answers, the latest last. -/
structure Logged (σ : Type) where
  inner : σ
  answers : List Answer := []

namespace Logged

variable {σ : Type} [CacheStore σ]

instance : CacheStore (Logged σ) where
  call c s :=
    ((CacheStore.call c s.inner).1,
      ⟨(CacheStore.call c s.inner).2, s.answers ++ [⟨c, (CacheStore.call c s.inner).1⟩]⟩)
  stats s := ((CacheStore.stats s.inner).1, { s with inner := (CacheStore.stats s.inner).2 })
  delay s := CacheStore.delay s.inner

theorem answers_of_call {c : Call} {s s' : Logged σ} {reply : Except CacheError c.Reply}
    (h : CacheStore.call c s = (reply, s')) : s'.answers = s.answers ++ [⟨c, reply⟩] := by
  cases h
  rfl

/-- The log has no influence on what a store holds. -/
instance [LawfulStore σ] : LawfulStore (Logged σ) where
  contents s := LawfulStore.contents s.inner
  call_ok {c s s' reply} h := by
    obtain ⟨hreply, rfl⟩ := Prod.mk.inj h
    exact LawfulStore.call_ok (Prod.ext hreply rfl)
  call_error {c s s' e} h := by
    obtain ⟨hreply, rfl⟩ := Prod.mk.inj h
    exact LawfulStore.call_error (Prod.ext hreply rfl)

end Logged

/-- The same world, with an empty log before its store. -/
def World.logged {σ : Type} (w : World σ) : World (Logged σ) :=
  { w with store := { inner := w.store } }

/-- Work is stopped from outside: it is cancelled, its time is up, or the gate is closed. -/
inductive CacheError.Stops : CacheError → Prop
  | cancelled : Stops .cancelled
  | timeout (elapsed : Nat) : Stops (.timeout elapsed)
  | gateClosed : Stops .gateClosed

namespace World

variable {σ : Type} {context : Context} {w w' : World (Logged σ)}

/-- A run that stops has logged an error and fails with it, or it is stopped from outside. -/
theorem answers_of_halt {β : Type} {calls : List Call} {actions : List (Action (Logged σ) β)}
    {s s' : Logged σ} {o : Option CacheError} (h : Halt actions s o s')
    (hlogged : ∀ action ∈ actions, ∀ e s', action s = (.error e, s') →
      ∃ c ∈ calls, s'.answers = s.answers ++ [⟨c, .error e⟩]) :
    (∃ c ∈ calls, ∃ e, o = some e ∧ s'.answers = s.answers ++ [⟨c, .error e⟩]) ∨
      s' = s ∧ ∀ e, o = some e → e.Stops := by
  cases h with
  | waits => exact .inr ⟨rfl, nofun⟩
  | cancelled => exact .inr ⟨rfl, fun e he => Option.some.inj he ▸ .cancelled⟩
  | timeout elapsed => exact .inr ⟨rfl, fun e he => Option.some.inj he ▸ .timeout elapsed⟩
  | gateClosed => exact .inr ⟨rfl, fun e he => Option.some.inj he ▸ .gateClosed⟩
  | failed mem act =>
    obtain ⟨c, hc, hanswers⟩ := hlogged _ mem _ _ act
    exact .inl ⟨c, hc, _, rfl, hanswers⟩

variable [CacheStore σ]

/-- **A single call** is answered and logged, or it is never made. -/
theorem guarded_logged {c : Call} {r : Option (Except CacheError c.Reply)}
    (h : w.guarded context c = (r, w')) :
    (∃ reply, r = some reply ∧ w'.store.answers = w.store.answers ++ [⟨c, reply⟩]) ∨
      w'.store = w.store ∧ (r = none ∨ ∃ e : CacheError, r = some (.error e) ∧ e.Stops) := by
  have stops {o : Option CacheError} (hr : r = o.map .error) :
      (∃ e, o = some e ∧ w'.store.answers = w.store.answers ++ [⟨c, .error e⟩]) ∨
        w'.store = w.store ∧ ∀ e, o = some e → e.Stops := by
    have hlogged : ∀ action ∈ [CacheStore.call c], ∀ e s', action w.store = (.error e, s') →
        ∃ d ∈ [c], s'.answers = w.store.answers ++ [⟨d, .error e⟩] := by
      intro action hmem e s' hact
      rw [List.mem_singleton.1 hmem] at hact
      exact ⟨c, List.mem_singleton_self c, Logged.answers_of_call hact⟩
    refine (answers_of_halt (guarded_halts h hr).1 hlogged).imp_left fun ⟨d, hd, hanswers⟩ => ?_
    rwa [List.mem_singleton.1 hd] at hanswers
  rcases r with - | e | reply
  · rcases stops (o := none) rfl with ⟨e, he, -⟩ | ⟨hstore, -⟩
    · cases he
    · exact .inr ⟨hstore, .inl rfl⟩
  · rcases stops (o := some e) rfl with ⟨e', he, hanswers⟩ | ⟨hstore, hstops⟩
    · cases he
      exact .inl ⟨.error e, rfl, hanswers⟩
    · exact .inr ⟨hstore, .inr ⟨e, rfl, hstops e rfl⟩⟩
  · exact .inl ⟨.ok reply, rfl, Logged.answers_of_call (guarded_ok h).1⟩

theorem answers_of_answers {order : List Call} {s s' : Logged σ} (h : Answers order s s') :
    ∃ answers, s'.answers = s.answers ++ answers ∧ answers.map Answer.call = order ∧
      ∀ a ∈ answers, a.error? = none := by
  induction h with
  | @nil s => exact ⟨[], (List.append_nil _).symm, rfl, nofun⟩
  | @cons c reply rest s m s' hcall _ ih =>
    obtain ⟨answers, hanswers, hcalls, hok⟩ := ih
    refine ⟨⟨c, .ok reply⟩ :: answers, ?_, congrArg (List.cons c) hcalls,
      List.forall_mem_cons.2 ⟨rfl, hok⟩⟩
    rw [hanswers, Logged.answers_of_call hcall, List.append_assoc]
    rfl

/-- What a run of calls has added to the log: answers to some of them, and the run fails with every
error among these. -/
structure Adds (calls : List Call) (w w' : World (Logged σ)) (r : Option (Except CacheError Unit))
    (answers : List Answer) : Prop where
  log : w'.store.answers = w.store.answers ++ answers
  calls : ∀ a ∈ answers, a.call ∈ calls
  errors : ∀ a ∈ answers, ∀ e, a.error? = some e → r = some (.error e)

/-- **Calls that run together** are logged as the store acts on them. -/
theorem guardedAll_logged {calls : List Call} {r : Option (Except CacheError Unit)}
    (h : w.guardedAll context calls = (r, w')) : ∃ answers, Adds calls w w' r answers := by
  have stops {o : Option CacheError} (hr : r = o.map .error) :
      ∃ answers, Adds calls w w' r answers := by
    obtain ⟨order, left, s, hperm, -, hanswers, hhalt, -⟩ := guardedAll_halts h hr
    obtain ⟨answers, hlog, hcalls, hok⟩ := answers_of_answers hanswers
    have hmem : ∀ a ∈ answers, a.call ∈ calls := by
      intro a ha
      refine hperm.mem_iff.2 (List.mem_append_left _ ?_)
      rw [← hcalls]
      exact List.mem_map_of_mem ha
    have hnone : ∀ a ∈ answers, ∀ e, a.error? = some e → r = some (.error e) := by
      intro a ha e he
      rw [hok a ha] at he
      cases he
    have hlogged : ∀ action ∈ left.map acting, ∀ e s', action s = (.error e, s') →
        ∃ c ∈ left, s'.answers = s.answers ++ [⟨c, .error e⟩] := by
      intro action haction e s' hact
      obtain ⟨c, hc, rfl⟩ := List.mem_map.1 haction
      exact ⟨c, hc, Logged.answers_of_call (acting_error hact)⟩
    rcases answers_of_halt hhalt hlogged with ⟨c, hc, e, rfl, hlast⟩ | ⟨hsame, -⟩
    · refine ⟨answers ++ [⟨c, .error e⟩], ?_, fun a ha => ?_, fun a ha e' he' => ?_⟩
      · rw [hlast, hlog, List.append_assoc]
      · rcases List.mem_append.1 ha with ha | ha
        · exact hmem a ha
        · rw [List.mem_singleton.1 ha]
          exact hperm.mem_iff.2 (List.mem_append_right _ hc)
      · rcases List.mem_append.1 ha with ha | ha
        · exact hnone a ha e' he'
        · rw [List.mem_singleton.1 ha] at he'
          cases he'
          exact hr
    · exact ⟨answers, hsame ▸ hlog, hmem, hnone⟩
  rcases r with - | e | u
  · exact stops (o := none) rfl
  · exact stops (o := some e) rfl
  · obtain ⟨⟨order, hperm, hanswers⟩, -⟩ := guardedAll_ok h
    obtain ⟨answers, hlog, hcalls, hok⟩ := answers_of_answers hanswers
    refine ⟨answers, hlog, fun a ha => ?_, fun a ha e he => ?_⟩
    · rw [← hperm.mem_iff, ← hcalls]
      exact List.mem_map_of_mem ha
    · rw [hok a ha] at he
      cases he

end World

end QueryCache
