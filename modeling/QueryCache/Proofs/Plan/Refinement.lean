import QueryCache.Proofs.Fanout.Halt
import QueryCache.Proofs.Plan.Ends
import QueryCache.Proofs.Plan.Run

/-!
# Runs and ends

Running a plan in a world is one of its ends: gate, delays and context decide which calls are
answered, in which order, and where the run stops. What holds of every end of a plan therefore holds
of every run, for any store that behaves like a map.

## Main definitions

* `World.snapshot` : what a world's store holds and how many identifiers have been minted.
* `Mishaps.Covers` : what goes wrong in a run on some kind of store is allowed for.
* `Plan.Answered` : a run in which every call is answered.

## Main results

* `Plan.ends_of_run` : a run is an end of the plan.
* `Plan.Answered.ends` : a run in which every call is answered has a result, and is an end without
  mishaps.
-/

namespace QueryCache

variable {ν α σ : Type} [CacheStore σ] {mishaps : Mishaps}

/-- What goes wrong in a run on a store of this kind is allowed for: the store's own refusals, the
limits of the context, the closed gate, and waiting for ever. -/
structure Mishaps.Covers (mishaps : Mishaps) (σ : Type) [CacheStore σ] : Prop where
  refusal : ∀ {c : Call} {s s' : σ} {e : CacheError},
    CacheStore.call c s = (.error e, s') → mishaps c (some e)
  limit : ∀ c, mishaps c none ∧ mishaps c (some .cancelled) ∧ mishaps c (some .gateClosed) ∧
    ∀ elapsed, mishaps c (some (.timeout elapsed))

theorem Mishaps.covers_always : always.Covers σ :=
  ⟨fun _ => trivial, fun _ => ⟨trivial, trivial, trivial, fun _ => trivial⟩⟩

/-- A run stops because of a limit, and changes nothing, or because an action fails. -/
theorem Halt.limit_or_failed {β : Type} {actions : List (Action σ β)} {s s' : σ}
    {o : Option CacheError} (hcovers : mishaps.Covers σ) (h : Halt actions s o s') :
    (s' = s ∧ ∀ c, mishaps c o) ∨
      ∃ action ∈ actions, ∃ e, o = some e ∧ action s = (.error e, s') := by
  cases h with
  | waits => exact .inl ⟨rfl, fun c => (hcovers.limit c).1⟩
  | cancelled => exact .inl ⟨rfl, fun c => (hcovers.limit c).2.1⟩
  | timeout elapsed => exact .inl ⟨rfl, fun c => (hcovers.limit c).2.2.2 elapsed⟩
  | gateClosed => exact .inl ⟨rfl, fun c => (hcovers.limit c).2.2.1⟩
  | failed mem act => exact .inr ⟨_, mem, _, rfl, act⟩

namespace World

variable [LawfulStore σ] {context : Context} {w w' : World σ}

/-- What a world's store holds, and how many identifiers have been minted. -/
def snapshot (w : World σ) : Snapshot := ⟨w.contents, w.minted⟩

theorem snapshot_eq {s : Snapshot} (hcontents : w.contents = s.contents)
    (hminted : w.minted = s.minted) : w.snapshot = s := by
  rw [snapshot, hcontents, hminted]

/-- A single call that is answered. -/
theorem guarded_answers {c : Call} {reply : c.Reply}
    (h : w.guarded context c = (some (.ok reply), w')) :
    reply = (c.apply w.snapshot.contents).1 ∧ w'.snapshot = w.snapshot.after [c] := by
  obtain ⟨hcall, hcounts⟩ := guarded_ok h
  have happly := LawfulStore.call_ok hcall
  exact ⟨(congrArg Prod.fst happly).symm,
    snapshot_eq (congrArg Prod.snd happly).symm hcounts.minted⟩

/-- A single call that is not answered changes nothing. -/
theorem guarded_stops {c : Call} {r : Option (Except CacheError c.Reply)} {o : Option CacheError}
    (hcovers : mishaps.Covers σ) (h : w.guarded context c = (r, w')) (hr : r = o.map .error) :
    w'.snapshot = w.snapshot ∧ mishaps c o := by
  obtain ⟨hhalt, hcounts⟩ := guarded_halts h hr
  rcases hhalt.limit_or_failed hcovers with ⟨hstore, hlimit⟩ | ⟨action, hmem, e, rfl, hact⟩
  · exact ⟨snapshot_eq (congrArg LawfulStore.contents hstore) hcounts.minted, hlimit c⟩
  · obtain rfl := List.mem_singleton.1 hmem
    exact ⟨snapshot_eq (LawfulStore.call_error hact) hcounts.minted, hcovers.refusal hact⟩

/-- Calls that run together and are all answered. -/
theorem guardedAll_answers {calls : List Call}
    (h : w.guardedAll context calls = (some (.ok ()), w')) :
    ∃ order, calls.Perm order ∧ w'.snapshot = w.snapshot.after order := by
  obtain ⟨⟨order, hperm, hanswers⟩, hcounts⟩ := guardedAll_ok h
  exact ⟨order, hperm.symm, snapshot_eq hanswers.applyAll hcounts.minted⟩

/-- Calls that run together and are not all answered. -/
theorem guardedAll_stops {calls : List Call} {r : Option (Except CacheError Unit)}
    {o : Option CacheError} (hcovers : mishaps.Covers σ)
    (h : w.guardedAll context calls = (r, w')) (hr : r = o.map .error) :
    ∃ order left, calls.Perm (order ++ left) ∧ w'.snapshot = w.snapshot.after order ∧
      ∃ c ∈ left, mishaps c o := by
  obtain ⟨order, left, s, hperm, hleft, hanswers, hhalt, hcounts⟩ := guardedAll_halts h hr
  refine ⟨order, left, hperm, ?_⟩
  rcases hhalt.limit_or_failed hcovers with ⟨hstore, hlimit⟩ | ⟨action, hmem, e, rfl, hact⟩
  · obtain ⟨c, rest, rfl⟩ := List.exists_cons_of_ne_nil hleft
    rw [← hstore] at hanswers
    exact ⟨snapshot_eq hanswers.applyAll hcounts.minted, c, List.mem_cons_self, hlimit c⟩
  · obtain ⟨c, hc, rfl⟩ := List.mem_map.1 hmem
    have hcall := acting_error hact
    refine ⟨snapshot_eq ?_ hcounts.minted, c, hc, hcovers.refusal hcall⟩
    exact (LawfulStore.call_error hcall).trans hanswers.applyAll

end World

namespace Plan

variable [LawfulStore σ] {env : Environment ν} {w w' : World σ}

/-- **A run is an end of the plan.** -/
theorem ends_of_run (hcovers : mishaps.Covers σ) {p : Plan ν α} {o : Option (Except Error α)}
    (h : p.run env w = (o, w')) : p.Ends mishaps env.ids w.snapshot o w'.snapshot := by
  induction p generalizing w with
  | done result =>
    cases h
    exact .done
  | call c next ih =>
    rw [run] at h
    cases hcall : w.guarded (env.contextAt w.now) c with
    | mk answer w₁ =>
      rcases answer with - | e | reply
      · simp only [hcall] at h
        cases h
        obtain ⟨hsame, hmishap⟩ := World.guarded_stops hcovers hcall (o := none) rfl
        rw [hsame]
        exact .dropped hmishap
      · simp only [hcall] at h
        obtain ⟨hsame, hmishap⟩ := World.guarded_stops hcovers hcall (o := some e) rfl
        have hrest := ih _ h
        rw [hsame] at hrest
        exact .refused hmishap hrest
      · simp only [hcall] at h
        obtain ⟨rfl, hafter⟩ := World.guarded_answers hcall
        have hrest := ih _ h
        rw [hafter] at hrest
        exact .answered hrest
  | batch calls next ih =>
    rw [run] at h
    cases hcalls : w.guardedAll (env.contextAt w.now) calls with
    | mk answer w₁ =>
      rcases answer with - | e | ⟨⟩
      · simp only [hcalls] at h
        cases h
        obtain ⟨order, left, hperm, hafter, c, hc, hmishap⟩ :=
          World.guardedAll_stops hcovers hcalls (o := none) rfl
        rw [hafter]
        exact .someDropped hperm hc hmishap
      · simp only [hcalls] at h
        obtain ⟨order, left, hperm, hafter, c, hc, hmishap⟩ :=
          World.guardedAll_stops hcovers hcalls (o := some e) rfl
        have hrest := ih _ h
        rw [hafter] at hrest
        exact .someRefused hperm hc hmishap hrest
      · simp only [hcalls] at h
        obtain ⟨order, hperm, hafter⟩ := World.guardedAll_answers hcalls
        have hrest := ih _ h
        rw [hafter] at hrest
        exact .allAnswered hperm hrest
  | mint next ih => exact .mint (ih _ h)
  | fetch query next ih =>
    have hrest := ih (env.primary query) h
    exact .fetch _ hrest

/-- A run in which every call to the store is answered. -/
def Answered (env : Environment ν) : Plan ν α → World σ → Prop
  | done _, _ => True
  | call c next, w => ∃ reply w₁, w.guarded (env.contextAt w.now) c = (some (.ok reply), w₁) ∧
      Answered env (next (.ok reply)) w₁
  | batch calls next, w => ∃ w₁, w.guardedAll (env.contextAt w.now) calls = (some (.ok ()), w₁) ∧
      Answered env (next (.ok ())) w₁
  | mint next, w => Answered env (next (env.ids w.minted)) { w with minted := w.minted + 1 }
  | fetch query next, w =>
      Answered env (next (env.primary query)) { w with fetched := w.fetched + 1 }

omit [LawfulStore σ] in
theorem answered_lift_bind {β ε : Type} {wrap : ε → Error} {x : Except ε α} {f : α → Plan ν β}
    (h : ∀ a, x = .ok a → (f a).Answered env w) :
    ((lift wrap x : Plan ν α) >>= f).Answered env w := by
  cases x with
  | ok a => exact h a rfl
  | error e => trivial

/-- **A run in which every call is answered** has a result, and is an end without mishaps. -/
theorem Answered.ends {p : Plan ν α} (h : p.Answered env w) :
    ∃ result w', p.run env w = (some result, w') ∧
      p.Ends .never env.ids w.snapshot (some result) w'.snapshot := by
  induction p generalizing w with
  | done result => exact ⟨result, w, rfl, .done⟩
  | call c next ih =>
    obtain ⟨reply, w₁, hcall, hrest⟩ := h
    obtain ⟨result, w', hrun, hends⟩ := ih _ hrest
    obtain ⟨rfl, hafter⟩ := World.guarded_answers hcall
    rw [hafter] at hends
    refine ⟨result, w', ?_, .answered hends⟩
    rw [run, hcall]
    exact hrun
  | batch calls next ih =>
    obtain ⟨w₁, hcalls, hrest⟩ := h
    obtain ⟨result, w', hrun, hends⟩ := ih _ hrest
    obtain ⟨order, hperm, hafter⟩ := World.guardedAll_answers hcalls
    rw [hafter] at hends
    refine ⟨result, w', ?_, .allAnswered hperm hends⟩
    rw [run, hcalls]
    exact hrun
  | mint next ih =>
    obtain ⟨result, w', hrun, hends⟩ := ih _ h
    exact ⟨result, w', hrun, .mint hends⟩
  | fetch query next ih =>
    obtain ⟨result, w', hrun, hends⟩ := ih _ h
    exact ⟨result, w', hrun, .fetch _ hends⟩

end Plan

end QueryCache
