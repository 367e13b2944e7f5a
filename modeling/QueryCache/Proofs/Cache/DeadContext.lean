import QueryCache.Proofs.Cache.ReadPolicy
import QueryCache.Proofs.Plan.Dead

/-!
# Operations under a context that is over

An operation whose context has been cancelled or is past its deadline when it begins never reaches
the store, and leaves the gate as it is. If it needs the store, it fails with the error of the
context. A read alone may do without the store: if the policy is to degrade and only the deadline
has come, it returns what the primary store has.

## Main results

* `Cache.find_dead_refused`, `Cache.find_dead_absorbed` : reads under a context that is over.
* `Cache.dead_context` : all operations under a context that is over.
-/

namespace QueryCache.Cache

variable {ν σ : Type} [CacheStore σ] {config : Config} {codec : Codec ν} {space : KeySpace}
  {query : Query} {options : ReadOptions} {env : Plan.Environment ν} {w w' : World σ}
  {asked : Nat → Nat} {e : CacheError}

/-! ### Stages of a read -/

theorem indexStage_dead (hsound : w.Sound asked) (hdead : env.context.Dead w.now e) :
    (indexStage codec space query options).run env w = (some (.ok none), w) ∨
      (indexStage codec space query options).run env w =
        (some (.error (.cache e)), { w with nextTicket := w.nextTicket + 1 }) := by
  rw [indexStage]
  split
  · rw [lookupByEquality_eq_readPayload]
    split
    · exact .inl rfl
    · exact .inr (Plan.run_call_bind_dead hsound hdead _)
  · exact .inl rfl

theorem lookupByQuerySignature_dead (hsound : w.Sound asked) (hdead : env.context.Dead w.now e)
    (hsignature : query.signature?.isSome = true) :
    (lookupByQuerySignature codec space query : Plan ν _).run env w =
      (some (.error (.cache e)), { w with nextTicket := w.nextTicket + 1 }) := by
  obtain ⟨signature, hsome⟩ := Option.isSome_iff_exists.1 hsignature
  rw [lookupByQuerySignature_eq, Query.cacheKey?, hsome]
  exact Plan.run_call_bind_dead hsound hdead _

/-- The storing of a value ends without a call, as that of a value without a payload, or with the
error of the context. -/
theorem writeBack_dead (hsound : w.Sound asked) (hdead : env.context.Dead w.now e) (value : ν) :
    (writeBack codec space query options value).run env w = (some (.ok false), w) ∨
      (∃ reason, options.cacheResult = true ∧ codec.encode value = .error reason ∧
        (writeBack codec space query options value).run env w =
          (some (.error (.cache (.encode reason))), w)) ∨
      (writeBack codec space query options value).run env w =
        (some (.error (.cache e)), { w with nextTicket := w.nextTicket + 1 }) := by
  rw [writeBack]
  split
  next hcache =>
    rw [storeQueryResult]
    split
    · exact .inl rfl
    · cases hencode : codec.encode value with
      | error reason =>
        rw [encode, hencode]
        exact .inr (.inl ⟨reason, hcache, rfl, rfl⟩)
      | ok payload =>
        rw [encode, hencode]
        exact .inr (.inr (Plan.run_call_bind_dead hsound hdead _))
  · exact .inl rfl

/-! ### Reads -/

/-- **A read that needs the store** returns the error of the context, if it is not absorbed. -/
theorem find_dead_refused (hforce : options.forcePrimary = false)
    (hsignature : query.signature?.isSome = true) (hsound : w.Sound asked)
    (hdead : env.context.Dead w.now e) (he : absorbs config (.cache e) = false) :
    (find config codec space query options).run env w =
      (some (.error (.cache e)), { w with nextTicket := w.nextTicket + 1 }) := by
  rw [find_eq_attempt hforce]
  rcases indexStage_dead hsound hdead with hindex | hindex
  · refine (run_absorbing_of_ok hindex).trans ?_
    exact run_absorbing_of_not (lookupByQuerySignature_dead hsound hdead hsignature) he
  · exact run_absorbing_of_not hindex he

/-- **A read that needs the store** goes on to the primary store, if the error of the context is
absorbed. -/
theorem find_dead_absorbed (hforce : options.forcePrimary = false)
    (hsignature : query.signature?.isSome = true) (hsound : w.Sound asked)
    (hdead : env.context.Dead w.now e) (he : absorbs config (.cache e) = true) :
    ∃ n, (find config codec space query options).run env w =
      (findInPrimary config codec space query options).run env
        { w with nextTicket := w.nextTicket + n } := by
  rw [find_eq_attempt hforce]
  rcases indexStage_dead hsound hdead with hindex | hindex
  · refine ⟨1, (run_absorbing_of_ok hindex).trans ?_⟩
    exact run_absorbing_of_absorbs (lookupByQuerySignature_dead hsound hdead hsignature) he
  · refine ⟨1 + 1, (run_absorbing_of_absorbs hindex he).trans ?_⟩
    exact run_absorbing_of_absorbs
      (lookupByQuerySignature_dead (hsound.skip 1) hdead hsignature) he

/-- **A read that goes to the primary store** returns what it finds there, as if it had been
stored. -/
theorem findInPrimary_dead (hsound : w.Sound asked) (hdead : env.context.Dead w.now e)
    (he : absorbs config (.cache e) = true) :
    ∃ r w', (findInPrimary config codec space query options).run env w = (some r, w') ∧
      w'.fetched = w.fetched + 1 ∧
      (r = (env.primary query).map (Option.map CacheRead.fromPrimary) ∨
        ∃ value reason, options.cacheResult = true ∧ env.primary query = .ok (some value) ∧
          codec.encode value = .error reason ∧ r = .error (.cache (.encode reason))) := by
  have hasks : AsksPrimary config codec space query options env w _ := findInPrimary_asks w
  obtain ⟨r, w', hrun, -, -⟩ := Plan.run_dead hsound hdead
    (findInPrimary config codec space query options)
  refine ⟨r, w', hrun, fetched_of_findInPrimary hrun, ?_⟩
  rw [hrun] at hasks
  rcases hprimary : env.primary query with cause | - | value
  · cases hasks.failed cause hprimary
    exact .inl rfl
  · cases hasks.nothing hprimary
    exact .inl rfl
  · have hfetched : ({ w with fetched := w.fetched + 1 } : World σ).Sound asked :=
      hsound.of_gate rfl rfl
    rcases writeBack_dead hfetched hdead value with hwrite | ⟨reason, hcache, hencode, hwrite⟩ |
      hwrite
    · cases hasks.written value false _ hprimary hwrite
      exact .inl rfl
    · cases hasks.refused value _ _ hprimary hwrite rfl
      exact .inr ⟨value, reason, hcache, rfl, hencode, rfl⟩
    · cases hasks.absorbed value _ _ hprimary hwrite he
      exact .inl rfl

/-- A read that passes the cache over or has no name to look for does not depend on its context. -/
theorem find_run_context (h : options.forcePrimary = true ∨ query.signature? = none)
    (context : Context) (w : World σ) :
    (find config codec space query options).run { env with context := context } w =
      (find config codec space query options).run env w := by
  rcases h with hforce | hnone
  · rw [find_force_run hforce, find_force_run hforce]
  · have hnot : query.signature?.isSome = true → False := by
      rw [hnone]
      exact nofun
    exact (allSteps_find (fun hsome _ => hnot hsome)
      fun _ _ _ hsome _ _ => hnot hsome).run_eq context

/-! ### All operations -/

/-- **A context that is over never reaches the store.** Let the books of the gate be right, as they
are at every moment of a session (`Session.Steps.sound`). Let the context of an operation have been
cancelled, or let its deadline have come, when the operation begins. Then the store is not called,
and neither the store nor the gate nor the time changes. An operation that would call the store
under some context fails with the error of its own one; else it goes the same way under every
context. A read that needs the store returns this error, too, unless it degrades and only the
deadline has come: then it returns what the primary store has. A read that passes the cache over
does not depend on its context. -/
theorem dead_context {ν σ : Type} [CacheStore σ] {space : KeySpace} {env : Plan.Environment ν}
    {w : World (Logged σ)} {asked : Nat → Nat} {e : CacheError} (hsound : w.Sound asked)
    (hdead : env.context.Dead w.now e) :
    (∀ {α : Type} (operation : Operation ν α), ∃ r w',
      (operation.plan space).run env w = (some r, w') ∧ w.Untouched w' ∧
        (operation.readsThrough = false →
          (r = .error (.cache e) ∨ ∀ context,
            (operation.plan space).run { env with context := context } w = (some r, w')) ∧
          ∀ context o w₁,
            (operation.plan space).run { env with context := context } w = (o, w₁) →
              w₁.store.answers ≠ w.store.answers → r = .error (.cache e))) ∧
    ∀ {config : Config} {codec : Codec ν} {query : Query} {options : ReadOptions},
      (options.forcePrimary = true ∨ query.signature? = none → ∀ context,
        (find config codec space query options).run { env with context := context } w =
          (find config codec space query options).run env w) ∧
      (options.forcePrimary = false → query.signature?.isSome = true →
        (e = .cancelled ∨ config.onCacheError = .propagate →
          ∃ w', (find config codec space query options).run env w =
            (some (.error (.cache e)), w') ∧ w'.fetched = w.fetched) ∧
        (e = .timeout 0 → config.onCacheError = .degrade →
          ∃ r w', (find config codec space query options).run env w = (some r, w') ∧
            w'.fetched = w.fetched + 1 ∧
            (r = (env.primary query).map (Option.map CacheRead.fromPrimary) ∨
              ∃ value reason, options.cacheResult = true ∧
                env.primary query = .ok (some value) ∧ codec.encode value = .error reason ∧
                  r = .error (.cache (.encode reason))))) := by
  refine ⟨fun {α} operation => ?_, fun {config codec query options} =>
    ⟨fun h context => find_run_context h context w, fun hforce hsignature => ⟨fun he => ?_,
      fun he hdegrade => ?_⟩⟩⟩
  · obtain ⟨r, w', hrun, hsame, -⟩ := Plan.run_dead hsound hdead (operation.plan space)
    refine ⟨r, w', hrun, hsame, fun hnot => ?_⟩
    have hfast : (operation.plan space).FailsFast fun _ => True := operation.failsFast hnot
    have hend := hfast.run_dead trivial hsound hdead hrun
    -- A run that goes this way under every context leaves nothing in the log.
    refine ⟨hend, fun context o w₁ hother hcalled => hend.resolve_right fun hall => ?_⟩
    cases hother.symm.trans (hall context)
    exact hcalled (congrArg Logged.answers hsame.store)
  · have hnot : absorbs config (.cache e) = false := by
      rcases he with rfl | hpropagate
      · rfl
      · cases e <;> simp [absorbs, hpropagate]
    exact ⟨_, find_dead_refused hforce hsignature hsound hdead hnot, rfl⟩
  · have habsorbs : absorbs config (.cache e) = true :=
      absorbs_iff.2 ⟨hdegrade, e, rfl, by rw [he]; rfl, by simp [he]⟩
    obtain ⟨n, hrun⟩ := find_dead_absorbed hforce hsignature hsound hdead habsorbs
    rw [hrun]
    exact findInPrimary_dead (hsound.skip n) hdead habsorbs

/-- A store in memory, five milliseconds after its clock began. -/
def laterStore : World (Logged MemoryStore) :=
  { now := 5, gate := Gate.ofCapacity 2, store := { inner := {} } }

/-- The users of age one can be had from the primary store. The deadline has come by then, and the
work may have been cancelled before. -/
def lateUsers (cancelAt : Option Nat) : Plan.Environment Json :=
  { usersPrimary with context := ⟨some 5, cancelAt⟩ }

/-- A lookup that was cancelled and whose deadline has come is cancelled. After the deadline alone,
a read returns what the primary store has, without a call. -/
theorem dead_context_later : ∃ q w₁ w₂,
    Compiler.compile ⟨.relational, "?"⟩ (.equal "age" (.num (.int 1))) = .ok q ∧
    (lookupByQuerySignature (Codec.json .records) ⟨"app", "users"⟩ q : Plan Json _).run
      (lateUsers (some 3)) laterStore = (some (.error (.cache .cancelled)), w₁) ∧
    w₁.store.answers = [] ∧
    (find {} (Codec.json .records) ⟨"app", "users"⟩ q { cacheResult := true }).run
      (lateUsers none) laterStore = (some (.ok (some ⟨usersOfAgeOne, .primary⟩)), w₂) ∧
    w₂.store.answers = [] := by
  obtain ⟨q, hq⟩ : ∃ q, Compiler.compile ⟨.relational, "?"⟩ (.equal "age" (.num (.int 1))) =
    .ok q := ⟨_, rfl⟩
  have hidle : laterStore.gate.Idle := ⟨rfl, rfl, rfl⟩
  have hcancelled : (lateUsers (some 3)).context.Dead laterStore.now .cancelled :=
    .cancelled (by decide)
  have hexpired : (lateUsers none).context.Dead laterStore.now (.timeout 0) :=
    .expired (by decide) (by decide)
  have hsound : laterStore.Sound fun _ => 1 := hidle.sound_world
  obtain ⟨hlookup, -⟩ := @dead_context Json _ _ ⟨"app", "users"⟩ _ _ _ _ hsound hcancelled
  obtain ⟨r, w₁, hrun, hsame, hcalls⟩ := hlookup
    (.lookupByQuerySignature (Codec.json .records) q : Operation Json (Option Json))
  have hrefused : r = .error (.cache .cancelled) := by
    refine (hcalls rfl).2 {} _ _ rfl ?_
    cases hq
    exact List.cons_ne_nil _ _
  obtain ⟨hfind, hreads⟩ := @dead_context Json _ _ ⟨"app", "users"⟩ _ _ _ _ hsound hexpired
  obtain ⟨r', w₂, hrun', hsame', -⟩ := hfind
    (.find {} (Codec.json .records) q { cacheResult := true })
  have hsignature : q.signature?.isSome = true := by
    cases hq
    rfl
  obtain ⟨r'', w₃, hrun'', -, hprimary | ⟨value, reason, -, -, hencode, -⟩⟩ :=
    ((@hreads {} (Codec.json .records) q { cacheResult := true }).2 rfl hsignature).2 rfl rfl
  · cases hrun'.symm.trans hrun''
    subst hrefused hprimary
    exact ⟨q, w₁, w₂, hq, hrun, congrArg Logged.answers hsame.store, hrun',
      congrArg Logged.answers hsame'.store⟩
  · cases hencode

end QueryCache.Cache
