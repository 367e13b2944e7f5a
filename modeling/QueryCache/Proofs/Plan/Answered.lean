import QueryCache.Proofs.Fanout.Open
import QueryCache.Proofs.Plan.Errors
import QueryCache.Proofs.Plan.Refinement
import QueryCache.Proofs.Plan.Units

/-!
# Plans that are answered

If every call of a plan is answered, then so is every call of its parts. A plan that only looks is
then told what the store holds: its result is a function of the contents of the store, and it leaves
nothing behind but its readings in the log. Where nothing can stop a call, every plan is answered.

## Main definitions

* `World.OnlyRead` : all that has happened between two worlds is that entries were read.
* `Plan.Looks` : a plan that only reads, and whose result is a function of what the store holds.
* `Plan.Calm` : a world in which nothing stops a plan.

## Main results

* `Plan.Answered.of_bind` : the parts of a plan.
* `Plan.Looks.run` : the run of a plan that only looks.
* `Plan.Calm.answered` : plans that nothing stops.
-/

namespace QueryCache

theorem Context.verdict?_of_unlimited {c : Context} (h : c.limited = false) (started now : Nat) :
    c.verdict? started now = none := by
  obtain ⟨deadline, cancelAt⟩ := c
  cases deadline <;> cases cancelAt <;> first
    | rfl
    | cases h

variable {ν α β σ : Type} [CacheStore σ] [LawfulStore σ]

/-- Entries were read and nothing else has been done to the store; the primary store was not
asked. -/
structure World.OnlyRead (w w' : World (Logged σ)) : Prop where
  contents : w'.contents = w.contents
  fetched : w'.fetched = w.fetched
  log : ∃ answers, w'.store.answers = w.store.answers ++ answers ∧
    ∀ a ∈ answers, a.call.kind = .get

theorem World.OnlyRead.trans {w w₁ w₂ : World (Logged σ)} (h : w.OnlyRead w₁)
    (h' : w₁.OnlyRead w₂) : w.OnlyRead w₂ := by
  obtain ⟨answers, hlog, hgets⟩ := h.log
  obtain ⟨answers', hlog', hgets'⟩ := h'.log
  refine ⟨h'.contents.trans h.contents, h'.fetched.trans h.fetched, answers ++ answers', ?_, ?_⟩
  · rw [hlog', hlog, List.append_assoc]
  · exact List.forall_mem_append.2 ⟨hgets, hgets'⟩

namespace Plan

variable {env : Environment ν} {p : Plan ν α}

/-! ### Parts of plans -/

omit [LawfulStore σ] in
/-- **The parts of a plan** whose calls are all answered. -/
theorem Answered.of_recover {f : Except Error α → Plan ν β} {w : World σ}
    (h : (p.recover f).Answered env w) : p.Answered env w ∧
      ∀ {result w₁}, p.run env w = (some result, w₁) → (f result).Answered env w₁ := by
  induction p generalizing w with
  | done result =>
    refine ⟨trivial, fun hrun => ?_⟩
    cases hrun
    exact h
  | call c next ih =>
    obtain ⟨reply, w₂, hcall, hrest⟩ := h
    obtain ⟨hnext, hf⟩ := ih _ hrest
    refine ⟨⟨reply, w₂, hcall, hnext⟩, fun hrun => hf ?_⟩
    rwa [run, hcall] at hrun
  | batch calls next ih =>
    obtain ⟨w₂, hcalls, hrest⟩ := h
    obtain ⟨hnext, hf⟩ := ih _ hrest
    refine ⟨⟨w₂, hcalls, hnext⟩, fun hrun => hf ?_⟩
    rwa [run, hcalls] at hrun
  | mint next ih => exact ih _ h
  | fetch query next ih => exact ih _ h

omit [LawfulStore σ] in
theorem Answered.of_bind {f : α → Plan ν β} {w : World σ} (h : (p >>= f).Answered env w) :
    p.Answered env w ∧
      ∀ {a w₁}, p.run env w = (some (.ok a), w₁) → (f a).Answered env w₁ := by
  obtain ⟨hp, hf⟩ := Answered.of_recover h
  exact ⟨hp, fun hrun => hf hrun⟩

/-! ### Plans that only look -/

/-- Whatever it is answered, the plan only reads. If no reading goes wrong, its result is a function
of what the store holds. -/
structure Looks (p : Plan ν α) (look : Contents → Except Error α) : Prop where
  gets : ∀ primary, p.AllSteps primary (fun c => c.kind = .get) fun _ => False
  ends : ∀ {ids s o s'}, p.Ends .never ids s o s' → o = some (look s.contents) ∧ s' = s

/-- **A plan that only looks** is told what the store holds, and leaves nothing but its readings. -/
theorem Looks.run {look : Contents → Except Error α} {w : World (Logged σ)} (h : p.Looks look)
    (hanswered : p.Answered env w) :
    ∃ w₁, p.run env w = (some (look w.contents), w₁) ∧ w.OnlyRead w₁ := by
  obtain ⟨result, w₁, hrun, hends⟩ := hanswered.ends
  obtain ⟨answers, hlogs⟩ := run_logged hrun
  have hgets := hlogs.calls _ _ (h.gets env.primary)
  obtain ⟨hresult, hsame⟩ := h.ends hends
  have hfetched := (h.gets env.primary).fetched_eq hrun
  rw [hresult] at hrun
  exact ⟨w₁, hrun, congrArg Snapshot.contents hsame, hfetched, answers, hlogs.log, hgets⟩

/-! ### Plans that nothing stops -/

/-- Nothing stops a plan: its calls have no limits in time, the gate is open and has a unit to
spare, and the store answers every call. -/
structure Calm (env : Environment ν) (asked : Nat → Nat) (w : World σ) : Prop where
  sound : w.Sound asked
  unlimited : env.limited = false
  opened : w.gate.closed = false
  free : 0 < w.gate.free
  answers : ∀ (c : Call) (s : σ), ∃ reply s', CacheStore.call c s = (.ok reply, s')

variable {asked : Nat → Nat} {w w' : World σ}

omit [LawfulStore σ] in
theorem Calm.keeps (h : Calm env asked w) (hkeeps : w.Keeps asked w') : Calm env asked w' where
  sound := hkeeps.sound
  unlimited := h.unlimited
  opened := hkeeps.gate.closed.trans h.opened
  free := by
    rcases hkeeps.gate.ready h.sound.gate (.inr h.free) with hclosed | hfree
    · cases (hkeeps.gate.closed.trans h.opened).symm.trans hclosed
    · exact hfree
  answers := h.answers

omit [LawfulStore σ] in
theorem Calm.live (h : Calm env asked w) (now : Nat) :
    (env.contextAt w.now).verdict? w.now now = none :=
  Context.verdict?_of_unlimited ((env.limited_contextAt w.now).trans h.unlimited) w.now now

omit [LawfulStore σ] in
/-- **A plan that nothing stops** is answered. -/
theorem Calm.answered (h : Calm env asked w) (p : Plan ν α) : p.Answered env w := by
  induction p generalizing w with
  | done result => trivial
  | call c next ih =>
    obtain ⟨reply, w₁, hcall⟩ := h.sound.guarded_answered h.opened h.free h.live (h.answers c)
    exact ⟨reply, w₁, hcall, ih _ (h.keeps (h.sound.guarded hcall))⟩
  | batch calls next ih =>
    obtain ⟨w₁, hcalls⟩ := h.sound.guardedAll_answered h.opened h.free h.live
      fun c _ => h.answers c
    exact ⟨w₁, hcalls, ih _ (h.keeps (h.sound.guardedAll hcalls))⟩
  | mint next ih | fetch query next ih =>
    exact ih _ ⟨h.sound.of_gate rfl rfl, h.unlimited, h.opened, h.free, h.answers⟩

end Plan

end QueryCache
