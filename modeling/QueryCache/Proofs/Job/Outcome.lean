import QueryCache.Proofs.Job.Guarded

/-!
# How a job ends under a context

A context can only cut off what a job would do without it. Until the context stops the job, the job
has come just as far as it would have come by then with no limits; from that moment on only others
do anything, and the gate does not know the job any more. So it is enough to know when the job would
be done if it were left alone: the cancellation, the deadline and that moment decide between them
how it ends.

## Main definitions

* `Job.DoneAt` : the moment at which a job is done if it is left alone.
* `Job.Aborted` : a job that is cut off at a moment.
* `Context.CancelsFirst`, `Context.ExpiresFirst` : what comes first.

## Main results

* `Job.exists_doneAt` : every job is done at some moment or never.
* `Job.aborted_of_verdict` : a job that is stopped is cut off.
* `Job.DoneAt.ends` : how a job ends.
* `Job.run_outcome` : this, and of which calls it holds.
-/

namespace QueryCache

/-! ### What comes first -/

namespace Context

variable {c : Context} {started now t : Nat}

/-- The cancellation at a moment comes first: it has come when the work begins, or it comes before
the deadline and before the moment at which the work is done. -/
def CancelsFirst (c : Context) (started : Nat) (f : Option Nat) (t : Nat) : Prop :=
  c.cancelAt = some t ∧ (t ≤ started ∨ (∀ d ∈ c.deadline, t < d) ∧ ∀ done ∈ f, t < done)

/-- The deadline comes first: it has come when the work begins, or it comes no later than the work
is done. -/
def ExpiresFirst (c : Context) (started : Nat) (f : Option Nat) (t : Nat) : Prop :=
  c.deadline = some t ∧ (t ≤ started ∨ ∀ done ∈ f, t ≤ done)

variable {f : Option Nat}

/-- Where the deadline comes first, the context has not been cancelled by then. -/
theorem ExpiresFirst.lt_cancelAt (h : c.ExpiresFirst started f t)
    (hdistinct : ∀ t ∈ c.cancelAt, c.deadline ≠ some t ∧ f ≠ some t)
    (hnone : ¬ ∃ t, c.CancelsFirst started f t) :
    ∀ cancel ∈ c.cancelAt, max started t < cancel := by
  intro cancel hcancel
  obtain ⟨hdeadline, hfirst⟩ := h
  have hstarted : started < cancel := by
    by_contra hpast
    exact hnone ⟨cancel, hcancel, .inl (Nat.le_of_not_lt hpast)⟩
  refine max_lt hstarted ?_
  by_contra hle
  have hne : cancel ≠ t := fun hsame => (hdistinct cancel hcancel).1 (hsame ▸ hdeadline)
  have hlt : cancel < t := by omega
  refine hnone ⟨cancel, hcancel, .inr ⟨fun d hd => ?_, fun done hf => ?_⟩⟩
  · cases hdeadline.symm.trans hd
    exact hlt
  · exact hlt.trans_le (hfirst.resolve_left (by omega) done hf)

/-- Where neither comes first, nothing stops work that is not done. -/
theorem verdict?_of_neither (hdistinct : ∀ t ∈ c.cancelAt, c.deadline ≠ some t ∧ f ≠ some t)
    (hnone : ¬ ∃ t, c.CancelsFirst started f t) (hnever : ¬ ∃ t, c.ExpiresFirst started f t)
    (hopen : ∀ done ∈ f, now ≤ done) : c.verdict? started now = none := by
  have hdeadline : ∀ d ∈ c.deadline, now < d := by
    intro d hd
    by_contra hpast
    exact hnever ⟨d, hd, .inr fun done hf => (Nat.le_of_not_lt hpast).trans (hopen done hf)⟩
  refine verdict?_eq_none_iff.2 ⟨fun cancel hcancel => ?_, hdeadline⟩
  by_contra hpast
  have hle := Nat.le_of_not_lt hpast
  refine hnone ⟨cancel, hcancel,
    .inr ⟨fun d hd => hle.trans_lt (hdeadline d hd), fun done hf => ?_⟩⟩
  refine lt_of_le_of_ne (hle.trans (hopen done hf)) fun hsame => ?_
  exact (hdistinct cancel hcancel).2 (hsame ▸ hf)

end Context

namespace Job

variable {σ τ β : Type} {job : Job σ τ β} {context : Context} {started now t n : Nat}
  {others : Others σ} {x : Shared σ} {s : State σ τ β} {e : CacheError}
  {result : Except CacheError β} {f : Option Nat}

/-! ### Cutting off -/

/-- The moment at which a job is done if it is left alone; none if it never is. -/
def DoneAt (job : Job σ τ β) (started : Nat) (others : Others σ) (x : Shared σ)
    (f : Option Nat) : Prop :=
  ∀ t, f = some t ↔ ∃ n result, (job.run .background started others x n).stage = .ended t result

/-- **A job is cut off** at a moment: up to then it goes on as if nothing limited it, and it has not
ended. At the moment it ends with an error; all that is done from then on is that it is given up and
what others do. The gate does not know it any more. -/
structure Aborted (job : Job σ τ β) (context : Context) (started : Nat) (others : Others σ)
    (x : Shared σ) (moment : Nat) (e : CacheError) : Prop where
  before : ∀ n, started + n ≤ moment →
    job.run context started others x n = job.run .background started others x n ∧
      ∀ t result, (job.run context started others x n).stage ≠ .ended t result
  ended : ∀ n, moment < started + n →
    (job.run context started others x n).stage = .ended moment (.error e)
  since : ∀ k, (job.run context started others x (moment - started + 1 + k)).toShared =
    others.moves (moment + 1) (others.later moment (job.giveUp moment e
      ((job.run .background started others x (moment - started)).change
        (others.before moment))).toShared) k
  gone : ∀ n, moment < started + n →
    job.ticket ∉ (job.run context started others x n).gate.tickets

/-- Before a job has begun the gate does not know it. -/
theorem notMem_of_idle (hfresh : job.ticket ∉ x.gate.tickets)
    (h : (job.run context started others x n).stage = .idle) :
    job.ticket ∉ (job.run context started others x n).gate.tickets := by
  cases n with
  | zero => exact hfresh
  | succ n => exact ((seen_moment job context started others _ _).begun h).elim

/-- A job that has been given up is not known to the gate. -/
theorem notMem_giveUp (h : s.stage = .idle → job.ticket ∉ s.gate.tickets) :
    job.ticket ∉ (job.giveUp now e s).gate.tickets := by
  rw [giveUp]
  cases hstage : s.stage with
  | idle => exact h hstage
  | _ => exact fun hmem => (Gate.mem_tickets_drop.1 hmem).2 rfl

/-- **A job that is stopped** for the first time, and before it is done, is cut off. -/
theorem aborted_of_verdict (hleave : others.Leave job.ticket)
    (hfresh : job.ticket ∉ x.gate.tickets) (hstart : started ≤ now)
    (hbefore : ∀ k, started + k < now → context.verdict? started (started + k) = none)
    (hverdict : context.verdict? started now = some e)
    (hopen : ∀ t result, (job.run .background started others x (now - started)).stage ≠
      .ended t result) :
    job.Aborted context started others x now e := by
  have hsame (n : Nat) (hn : started + n ≤ now) :
      job.run context started others x n = job.run .background started others x n :=
    run_eq_background fun k hk => hbefore k (by omega)
  have hnow : started + (now - started) = now := by omega
  have hcut : job.run context started others x (now - started + 1) =
      (job.giveUp now e ((job.run .background started others x (now - started)).change
        (others.before now))).change (others.later now) := by
    rw [run, hnow, hsame _ (by omega), moment_of_verdict hopen hverdict]
  have hended : (job.run context started others x (now - started + 1)).stage =
      .ended now (.error e) := by
    rw [hcut]
    rfl
  have hsince (k : Nat) : job.run context started others x (now - started + 1 + k) =
      (job.run context started others x (now - started + 1)).change
        fun x => others.moves (now + 1) x k := by
    have hnext : started + (now - started + 1) = now + 1 := by omega
    rw [run_of_ended hended k, hnext]
  refine ⟨fun n hn => ⟨hsame n hn, fun t result h => ?_⟩, fun n hn => ?_, fun k => ?_,
    fun n hn => ?_⟩
  · -- A job that has ended stays so, but it is open when it is stopped.
    obtain ⟨k, hk⟩ := Nat.exists_eq_add_of_le (show n ≤ now - started by omega)
    refine hopen t result ?_
    rw [hsame n hn] at h
    rw [hk, run_of_ended h]
    exact h
  · obtain ⟨k, rfl⟩ := Nat.exists_eq_add_of_le (show now - started + 1 ≤ n by omega)
    rw [hsince k]
    exact hended
  · rw [hsince k, hcut]
    rfl
  · obtain ⟨k, rfl⟩ := Nat.exists_eq_add_of_le (show now - started + 1 ≤ n by omega)
    rw [hsince k, hcut]
    refine hleave.moves _ (hleave.later _ (notMem_giveUp fun hidle => hleave.before _ _ ?_)) k
    exact notMem_of_idle hfresh hidle

/-! ### The outcome -/

theorem doneAt_of_ended (h : (job.run .background started others x n).stage = .ended t result) :
    job.DoneAt started others x (some t) := by
  intro t'
  constructor
  · rintro ⟨⟩
    exact ⟨n, result, h⟩
  · rintro ⟨m, result', h'⟩
    rw [ended_unique h h']

/-- A job is done at some moment or never. -/
theorem exists_doneAt (job : Job σ τ β) (started : Nat) (others : Others σ) (x : Shared σ) :
    ∃ f, job.DoneAt started others x f := by
  by_cases h : ∃ t n result, (job.run .background started others x n).stage = .ended t result
  · obtain ⟨t, n, result, h⟩ := h
    exact ⟨some t, doneAt_of_ended h⟩
  · exact ⟨none, fun t => iff_of_false nofun fun hended => h ⟨t, hended⟩⟩

theorem DoneAt.le (h : job.DoneAt started others x f) : ∀ done ∈ f, started ≤ done := by
  intro done hf
  obtain ⟨n, result, hended⟩ := (h done).1 hf
  exact (lt_of_ended hended).1

/-- A job is open before it is done. -/
theorem DoneAt.open (h : job.DoneAt started others x f) (hbefore : ∀ done ∈ f, started + n ≤ done)
    (t : Nat) (result : Except CacheError β) :
    (job.run .background started others x n).stage ≠ .ended t result := by
  intro hended
  have hle := hbefore t ((h t).2 ⟨n, result, hended⟩)
  have hlt := (lt_of_ended hended).2
  omega

/-- If nothing stops a job before it is done, it ends as if nothing limited it. -/
theorem DoneAt.run_eq_background (h : job.DoneAt started others x f)
    (hnone : ∀ k, (∀ done ∈ f, started + k ≤ done) → context.verdict? started (started + k) = none)
    (n : Nat) : job.run context started others x n = job.run .background started others x n := by
  induction n with
  | zero => rfl
  | succ n ih =>
    rw [run, run, ih]
    by_cases hopen : ∀ done ∈ f, started + n ≤ done
    · exact moment_eq_background (hnone n hopen)
    · push Not at hopen
      obtain ⟨done, hf, hlt⟩ := hopen
      have hstarted := h.le done hf
      obtain ⟨m, result, hended⟩ := (h done).1 hf
      obtain ⟨k, hk⟩ := Nat.exists_eq_add_of_le (show done - started + 1 ≤ n by omega)
      have hstill : (job.run .background started others x n).stage = .ended done result := by
        rw [hk, run_of_ended (ended_at hended)]
        exact ended_at hended
      rw [moment_of_ended hstill, moment_of_ended hstill]

/-- **How a job ends** under a context. -/
theorem DoneAt.ends (hdone : job.DoneAt started others x f) (hleave : others.Leave job.ticket)
    (hfresh : job.ticket ∉ x.gate.tickets)
    (hdistinct : ∀ t ∈ context.cancelAt, context.deadline ≠ some t ∧ f ≠ some t) :
    (∀ t, context.CancelsFirst started f t →
      job.Aborted context started others x (max started t) .cancelled) ∧
    (∀ t, (¬ ∃ c, context.CancelsFirst started f c) → context.ExpiresFirst started f t →
      job.Aborted context started others x (max started t) (.timeout (t - started))) ∧
    ((¬ ∃ c, context.CancelsFirst started f c) → (¬ ∃ d, context.ExpiresFirst started f d) →
      ∀ n, job.run context started others x n = job.run .background started others x n) := by
  have hle := hdone.le
  refine ⟨fun t ht => ?_, fun t hnone ht => ?_, fun hnone hnever => ?_⟩
  · obtain ⟨hcancel, hfirst⟩ := ht
    refine aborted_of_verdict hleave hfresh (le_max_left _ _) (fun k hk => ?_)
      (Context.verdict?_eq_cancelled hcancel (le_max_right _ _))
      (hdone.open fun done hf => ?_)
    · have hlt : started + k < t := by omega
      obtain ⟨hdeadline, -⟩ := hfirst.resolve_left (by omega)
      refine Context.verdict?_eq_none_iff.2
        ⟨fun c hc => ?_, fun d hd => hlt.trans (hdeadline d hd)⟩
      cases hcancel.symm.trans hc
      exact hlt
    · have hstarted := hle done hf
      rcases hfirst with hpast | ⟨-, hearly⟩
      · omega
      · have hlt := hearly done hf
        omega
  · have hlater := ht.lt_cancelAt hdistinct hnone
    obtain ⟨hdeadline, hfirst⟩ := ht
    have helapsed : max started t - started = t - started := by omega
    rw [← helapsed]
    refine aborted_of_verdict hleave hfresh (le_max_left _ _) (fun k hk => ?_)
      (Context.verdict?_eq_timeout hlater hdeadline (le_max_right _ _))
      (hdone.open fun done hf => ?_)
    · refine Context.verdict?_eq_none_iff.2
        ⟨fun c hc => hk.trans (hlater c hc), fun d hd => ?_⟩
      cases hdeadline.symm.trans hd
      omega
    · have hstarted := hle done hf
      rcases hfirst with hpast | hearly
      · omega
      · have hlate := hearly done hf
        omega
  · exact hdone.run_eq_background fun _ hk =>
      Context.verdict?_of_neither hdistinct hnone hnever hk

/-- **The end of a job** under a context. The cancellation and the deadline cut it off where they
come first, and otherwise it goes on as if there were neither. The calls that the gate guards are
jobs of this kind, and so are requests for units that are held. -/
theorem run_outcome :
    (∀ {σ τ β : Type} (job : Job σ τ β) (context : Context) (started : Nat) (others : Others σ)
      (x : Shared σ) (f : Option Nat), others.Leave job.ticket → job.ticket ∉ x.gate.tickets →
      job.DoneAt started others x f →
      (∀ t ∈ context.cancelAt, context.deadline ≠ some t ∧ f ≠ some t) →
      (∀ t, context.CancelsFirst started f t →
        job.Aborted context started others x (max started t) .cancelled) ∧
      (∀ t, (¬ ∃ c, context.CancelsFirst started f c) → context.ExpiresFirst started f t →
        job.Aborted context started others x (max started t) (.timeout (t - started))) ∧
      ((¬ ∃ c, context.CancelsFirst started f c) → (¬ ∃ d, context.ExpiresFirst started f d) →
        ∀ n, job.run context started others x n = job.run .background started others x n)) ∧
    (∀ {σ : Type} [CacheStore σ] (w : World σ) (asked : Nat → Nat), w.Sound asked →
      ∀ (context : Context) (c : Call),
        (ofAction w.nextTicket (CacheStore.delay w.store) (CacheStore.call c)).Gives context w.now
          ⟨w.gate, w.store⟩ (w.guarded context c)) ∧
    ∀ (s : Session) (asked : Nat → Nat) (name : String), s.world.Sound asked →
      (∀ h ∈ s.holds, h.name ≠ name) → ∀ (context : Context) (weight : Nat),
        (ofRequest s.world.nextTicket weight).Gives context s.world.now
          ⟨s.world.gate, s.world.store⟩
          ((s.hold context name weight).1, (s.hold context name weight).2.world) :=
  ⟨fun _ _ _ _ _ _ hleave hfresh hdone hdistinct => hdone.ends hleave hfresh hdistinct,
    fun _ _ h context c => h.guarded_gives context c,
    fun _ _ _ h hnew context weight => Session.hold_gives h hnew context weight⟩

/-- A job that gets its unit after five milliseconds and is done three later is cut off by a
deadline at the moment at which it would be done, and by a cancellation while it waits. With a store
in memory and one unit, a call and a request for the unit end as jobs do. -/
theorem run_outcome_cut :
    let job := ofAction 1 3 fun n : Nat => (.ok n, n + 1)
    let others : Others Nat := ⟨fun _ x => x, fun now =>
      if now = 5 then [fun x => { x with gate := x.gate.drop 7 }] else []⟩
    let x : Shared Nat := ⟨(Gate.ofCapacity 1).acquire 7 1, 0⟩
    (job.run .background 0 others x 9).stage = .ended 8 (.ok 0) ∧
      job.Aborted ⟨some 8, none⟩ 0 others x 8 (.timeout 8) ∧
      job.Aborted ⟨some 8, some 3⟩ 0 others x 3 .cancelled ∧
      let w : World Store := { now := 0, gate := Gate.ofCapacity 1, store := .memory {} }
      let s : Session := { config := {}, ids := fun _ => ⟨"id"⟩, world := w }
      (ofAction 0 0 (CacheStore.call (.get "k"))).Gives ⟨some 8, none⟩ 0 ⟨w.gate, w.store⟩
          (w.guarded ⟨some 8, none⟩ (.get "k")) ∧
        (ofRequest 0 1).Gives ⟨some 8, none⟩ 0 ⟨w.gate, w.store⟩
          ((s.hold ⟨some 8, none⟩ "unit" 1).1, (s.hold ⟨some 8, none⟩ "unit" 1).2.world) := by
  intro job others x
  have hended : (job.run .background 0 others x 9).stage = .ended 8 (.ok 0) := by cbv
  have hleave : others.Leave job.ticket := by
    refine ⟨fun _ _ => id, fun now change hmem x hx => ?_⟩
    have hmem : change ∈ if now = 5 then [_] else [] := hmem
    split at hmem
    · rw [List.mem_singleton.1 hmem]
      exact fun hdrop => hx (Gate.mem_tickets_drop.1 hdrop).1
    · cases hmem
  have hfresh : job.ticket ∉ x.gate.tickets := by decide
  have hdone : job.DoneAt 0 others x (some 8) := doneAt_of_ended hended
  refine ⟨hended, ?_, ?_, ?_⟩
  · obtain ⟨-, hexpires, -⟩ :=
      run_outcome.1 job ⟨some 8, none⟩ 0 others x (some 8) hleave hfresh hdone (by simp)
    exact hexpires 8 (by simp [Context.CancelsFirst]) ⟨rfl, .inr (by simp)⟩
  · obtain ⟨hcancels, -⟩ :=
      run_outcome.1 job ⟨some 8, some 3⟩ 0 others x (some 8) hleave hfresh hdone (by simp)
    exact hcancels 3 ⟨rfl, .inr (by simp)⟩
  · intro w s
    have hsound : w.Sound fun _ => 1 := (Gate.idle_ofCapacity 1).sound_world
    exact ⟨run_outcome.2.1 w _ hsound _ _,
      run_outcome.2.2 s _ "unit" hsound (fun h hmem => (List.not_mem_nil hmem).elim) _ _⟩

end Job

end QueryCache
