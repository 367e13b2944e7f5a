import QueryCache.Job
import QueryCache.Proofs.Fanout.Progress

/-!
# The course of a job

At each moment a job is looked at, and it goes on as if nothing limited it unless its context stops
it then. A job that has ended is left as it is; only others go on.

## Main definitions

* `Others.Leave` : others do not use a ticket.
* `Job.Seen` : what a moment does to the stage of a job.

## Main results

* `Job.run_eq_background` : a job that is not stopped.
* `Job.run_of_ended`, `Job.ended_at` : a job that has ended.
-/

namespace QueryCache

/-! ### Others -/

/-- Others do not use a ticket. -/
structure Others.Leave {σ : Type} (others : Others σ) (ticket : Nat) : Prop where
  before : ∀ now x, ticket ∉ x.gate.tickets → ticket ∉ (others.before now x).gate.tickets
  after : ∀ now, ∀ change ∈ others.after now, ∀ x, ticket ∉ x.gate.tickets →
    ticket ∉ (change x).gate.tickets

namespace Others.Leave

variable {σ : Type} {others : Others σ} {ticket : Nat} {x : Shared σ}

theorem later (h : others.Leave ticket) (now : Nat) (hx : ticket ∉ x.gate.tickets) :
    ticket ∉ (others.later now x).gate.tickets := by
  have hall := h.after now
  rw [Others.later]
  generalize others.after now = changes at hall
  induction changes generalizing x with
  | nil => exact hx
  | cons change rest ih =>
    obtain ⟨hchange, hrest⟩ := List.forall_mem_cons.1 hall
    exact ih (hchange x hx) hrest

theorem moves (h : others.Leave ticket) (start : Nat) (hx : ticket ∉ x.gate.tickets) (n : Nat) :
    ticket ∉ (others.moves start x n).gate.tickets := by
  induction n with
  | zero => exact hx
  | succ n ih => exact h.later _ (h.before _ _ ih)

end Others.Leave

namespace Job

variable {σ τ β : Type} {job : Job σ τ β} {context : Context} {started now t n : Nat}
  {others : Others σ} {x : Shared σ} {s : State σ τ β} {e : CacheError}
  {result : Except CacheError β} {f : Option Nat}

/-! ### One look -/

theorem look_of_ended (h : s.stage = .ended t result) : job.look context started now s = s := by
  rw [look, h]

theorem look_of_verdict (hopen : ∀ t result, s.stage ≠ .ended t result)
    (h : context.verdict? started now = some e) :
    job.look context started now s = job.giveUp now e s := by
  rw [look]
  split
  next hended => exact (hopen _ _ hended).elim
  · rw [h]

theorem look_of_none (hopen : ∀ t result, s.stage ≠ .ended t result)
    (h : context.verdict? started now = none) :
    job.look context started now s = job.poll now s := by
  rw [look]
  split
  next hended => exact (hopen _ _ hended).elim
  · rw [h]

theorem look_eq_background (h : context.verdict? started now = none) :
    job.look context started now = job.look .background started now := by
  funext s
  have hbackground : Context.background.verdict? started now = none := rfl
  rw [look, look, h, hbackground]

theorem stage_advance (point : τ) : (∃ point', (job.advance now point s).stage = .working point') ∨
    ∃ result, (job.advance now point s).stage = .ended now result := by
  rw [advance]
  split
  next point' store _ => exact .inl ⟨point', rfl⟩
  next result store _ => exact .inr ⟨result, rfl⟩

/-- After a look a job works or waits, or it has just ended, unless it had ended before. -/
theorem stage_look (job : Job σ τ β) (context : Context) (started now : Nat) (s : State σ τ β) :
    (∃ t result, s.stage = .ended t result ∧ job.look context started now s = s) ∨
    (∃ point, (job.look context started now s).stage = .working point) ∨
    (job.look context started now s).stage = .waiting ∨
    ∃ result, (job.look context started now s).stage = .ended now result := by
  have hadvance (s : State σ τ β) (point : τ) :
      (∃ point', (job.advance now point s).stage = .working point') ∨
        (job.advance now point s).stage = .waiting ∨
        ∃ result, (job.advance now point s).stage = .ended now result :=
    (stage_advance point).imp_right .inr
  have hpass (s : State σ τ β) : (∃ point, (job.pass now s).stage = .working point) ∨
      (job.pass now s).stage = .waiting ∨ ∃ result, (job.pass now s).stage = .ended now result := by
    rw [pass]
    split
    · exact hadvance s job.start
    · split
      · exact .inr (.inl rfl)
      · exact .inr (.inr ⟨_, rfl⟩)
  by_cases hended : ∃ t result, s.stage = .ended t result
  · obtain ⟨t, result, hended⟩ := hended
    exact .inl ⟨t, result, hended, look_of_ended hended⟩
  have hopen (t result) : s.stage ≠ .ended t result := fun h => hended ⟨t, result, h⟩
  refine .inr ?_
  cases hverdict : context.verdict? started now with
  | some e =>
    rw [look_of_verdict hopen hverdict]
    exact .inr (.inr ⟨_, rfl⟩)
  | none =>
    rw [look_of_none hopen hverdict, poll]
    split
    · exact hpass _
    · exact hpass _
    · exact hadvance _ _
    next hended => exact (hopen _ _ hended).elim

/-! ### Moments and runs -/

theorem foldl_look_of_ended (h : s.stage = .ended t result)
    (changes : List (Shared σ → Shared σ)) :
    changes.foldl (fun s change => job.look context started now (s.change change)) s =
      s.change fun x => changes.foldl (fun x change => change x) x := by
  induction changes generalizing s with
  | nil => rfl
  | cons change rest ih =>
    have hchange : (s.change change).stage = .ended t result := h
    rw [List.foldl_cons, look_of_ended hchange, ih hchange]
    rfl

/-- At a moment nothing is done for a job that has ended. -/
theorem moment_of_ended (h : s.stage = .ended t result) :
    job.moment context started others now s = s.change (others.move now) := by
  have hbefore : (s.change (others.before now)).stage = .ended t result := h
  rw [moment, look_of_ended hbefore, foldl_look_of_ended hbefore]
  rfl

/-- **Nothing is done for a job that has ended.** -/
theorem run_of_ended (h : (job.run context started others x n).stage = .ended t result) (k : Nat) :
    job.run context started others x (n + k) =
      (job.run context started others x n).change fun x => others.moves (started + n) x k := by
  induction k with
  | zero => rfl
  | succ k ih =>
    have hended : (job.run context started others x (n + k)).stage = .ended t result := by
      rw [ih]
      exact h
    have hrun : job.run context started others x (n + (k + 1)) =
        job.moment context started others (started + (n + k))
          (job.run context started others x (n + k)) := rfl
    rw [hrun, moment_of_ended hended, ih, ← Nat.add_assoc started n k]
    rfl

theorem moment_eq_background (h : context.verdict? started now = none) :
    job.moment context started others now s = job.moment .background started others now s := by
  rw [moment, look_eq_background h]
  rfl

/-- **A job that is not stopped** goes on as if nothing limited it. -/
theorem run_eq_background (h : ∀ k < n, context.verdict? started (started + k) = none) :
    job.run context started others x n = job.run .background started others x n := by
  induction n with
  | zero => rfl
  | succ n ih =>
    rw [run, run, ih fun k hk => h k (Nat.lt_succ_of_lt hk),
      moment_eq_background (h n n.lt_succ_self)]

/-- A job that is stopped at the beginning of a moment. -/
theorem moment_of_verdict (hopen : ∀ t result, s.stage ≠ .ended t result)
    (h : context.verdict? started now = some e) :
    job.moment context started others now s =
      (job.giveUp now e (s.change (others.before now))).change (others.later now) := by
  have hbefore : ∀ t result, (s.change (others.before now)).stage ≠ .ended t result := hopen
  rw [moment, look_of_verdict hbefore h, foldl_look_of_ended rfl]
  rfl

/-- After a look at a moment a job has begun, and if it has ended it did so before or just now. -/
structure Seen (now : Nat) (s s' : State σ τ β) : Prop where
  begun : s'.stage ≠ .idle
  ended : ∀ t result, s'.stage = .ended t result → s.stage = .ended t result ∨ t = now

theorem seen_look (job : Job σ τ β) (context : Context) (started now : Nat) (s : State σ τ β) :
    Seen now s (job.look context started now s) := by
  rcases stage_look job context started now s with
    ⟨t, result, hended, hsame⟩ | ⟨point, hstage⟩ | hstage | ⟨result, hstage⟩
  · rw [hsame]
    exact ⟨by simp [hended], fun _ _ => .inl⟩
  · exact ⟨by simp [hstage], by simp [hstage]⟩
  · exact ⟨by simp [hstage], by simp [hstage]⟩
  · refine ⟨by simp [hstage], fun t result h => .inr ?_⟩
    rw [hstage] at h
    cases h
    rfl

theorem seen_moment (job : Job σ τ β) (context : Context) (started : Nat) (others : Others σ)
    (now : Nat) (s : State σ τ β) : Seen now s (job.moment context started others now s) := by
  have hlook := seen_look job context started now (s.change (others.before now))
  have hfirst : Seen now s (job.look context started now (s.change (others.before now))) :=
    ⟨hlook.begun, hlook.ended⟩
  rw [moment]
  generalize job.look context started now (s.change (others.before now)) = s₁ at hfirst
  induction others.after now generalizing s₁ with
  | nil => exact hfirst
  | cons change rest ih =>
    have hlook := seen_look job context started now (s₁.change change)
    exact ih _ ⟨hlook.begun, fun t result h =>
      (hlook.ended t result h).elim (hfirst.ended t result) .inr⟩

/-- A job that has ended did so in the course of the run. -/
theorem lt_of_ended (h : (job.run context started others x n).stage = .ended t result) :
    started ≤ t ∧ t < started + n := by
  induction n with
  | zero => cases h
  | succ n ih =>
    rcases (seen_moment job context started others _ _).ended t result h with hbefore | rfl
    · have hlt := ih hbefore
      omega
    · omega

/-- A job that has ended did so at the moment it says. -/
theorem ended_at (h : (job.run context started others x n).stage = .ended t result) :
    (job.run context started others x (t - started + 1)).stage = .ended t result := by
  induction n with
  | zero => cases h
  | succ n ih =>
    rcases (seen_moment job context started others _ _).ended t result h with hbefore | rfl
    · exact ih hbefore
    · rwa [Nat.add_sub_cancel_left]

/-- A job ends only once. -/
theorem ended_unique {m t' : Nat} {result' : Except CacheError β}
    (h : (job.run context started others x n).stage = .ended t result)
    (h' : (job.run context started others x m).stage = .ended t' result') : t = t' := by
  have hn : (job.run context started others x (n + m)).stage = .ended t result := by
    rw [run_of_ended h]
    exact h
  have hm : (job.run context started others x (m + n)).stage = .ended t' result' := by
    rw [run_of_ended h']
    exact h'
  rw [Nat.add_comm, hm] at hn
  cases hn
  rfl

end Job

end QueryCache
