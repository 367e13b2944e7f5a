import QueryCache.Proofs.Cache.Reading
import QueryCache.Proofs.Plan.Units
import QueryCache.Proofs.Store.Unreachable

/-!
# What a read makes of errors

An error of the cache that is not absorbed ends the read, whichever stage it comes from. A read that
absorbs errors goes on without the cache: if its store is out of reach, it returns what the primary
store has, unless it is cancelled or kept waiting for ever.

## Main definitions

* `Cache.Stopped` : a read is kept waiting for ever, or it is cancelled.

## Main results

* `Cache.failsFast_find` : errors that are not absorbed end the read.
* `Cache.find_unreachable` : reads without a store.
* `Cache.read_policy` : fetches, writes and errors of a read.
-/

namespace QueryCache.Cache

variable {ν α β σ : Type} [CacheStore σ] {config : Config} {codec : Codec ν} {space : KeySpace}
  {query : Query} {options : ReadOptions} {env : Plan.Environment ν} {w w' : World σ}

/-! ### Errors that end a read -/

section FailsFast

variable {S : CacheError → Prop}

theorem failsFast_absorbing {missing : α} {step : Plan ν α} (h : step.FailsFast S)
    (hS : ∀ e, S e → absorbs config (.cache e) = false) :
    (absorbing config missing step).FailsFast S := by
  refine h.recover (fun result => ?_) fun e he => ?_
  · split
    · trivial
    · split <;> trivial
  · simp [hS e he]

theorem failsFast_attempt {stage : Plan ν (Option ν)} {source : ReadSource}
    {next : Plan ν (Option (CacheRead ν))} (h : stage.FailsFast S) (hnext : next.FailsFast S)
    (hS : ∀ e, S e → absorbs config (.cache e) = false) :
    (attempt config stage source next).FailsFast S := by
  refine (failsFast_absorbing h hS).bind fun value => ?_
  cases value with
  | none => exact hnext
  | some value => trivial

/-- **An error that is not absorbed** ends the read. -/
theorem failsFast_find : (find config codec space query options).FailsFast fun e =>
    absorbs config (.cache e) = false := by
  cases hforce : options.forcePrimary with
  | true =>
    rw [find_eq, if_pos hforce]
    exact Plan.FailsFast.bind (fun reply => trivial) fun _ => trivial
  | false =>
    have hindex : (indexStage codec space query options).FailsFast fun e =>
        absorbs config (.cache e) = false := by
      rw [indexStage]
      split
      · exact failsFast_lookupByEquality
      · trivial
    have hwrite (value : ν) : (writeBack codec space query options value).FailsFast fun e =>
        absorbs config (.cache e) = false := by
      rw [writeBack]
      split
      · exact failsFast_storeQueryResult codec query value
      · trivial
    rw [find_eq_attempt hforce, findInPrimary_eq]
    refine failsFast_attempt hindex (failsFast_attempt failsFast_lookupByQuerySignature ?_
      fun _ => id) fun _ => id
    refine Plan.FailsFast.bind (fun reply => trivial) fun value => ?_
    cases value with
    | none => trivial
    | some value => exact (failsFast_absorbing (hwrite value) fun _ => id).bind fun _ => trivial

end FailsFast

/-! ### Reads without a store -/

section Unreachable

variable {w w' : World (OutOfReach σ)}

theorem indexStage_unserved {o : Option (Except Error (Option ν))}
    (hrun : (indexStage codec space query options).run env w = (o, w')) :
    Plan.Unserved env (· = none) o := by
  rw [indexStage] at hrun
  split at hrun
  · rw [lookupByEquality_eq_readPayload] at hrun
    split at hrun
    · cases hrun
      exact .without none rfl
    · exact Plan.unserved_call_bind hrun
  · cases hrun
    exact .without none rfl

theorem lookupByQuerySignature_unserved {codec : Codec α} {o : Option (Except Error (Option α))}
    (hrun : (lookupByQuerySignature codec space query : Plan ν _).run env w = (o, w')) :
    Plan.Unserved env (· = none) o := by
  rw [lookupByQuerySignature_eq] at hrun
  split at hrun
  · cases hrun
    exact .without none rfl
  · exact Plan.unserved_call_bind hrun

theorem writeBack_unserved {value : ν} {payload : ByteArray} {o : Option (Except Error Bool)}
    (hencode : codec.encode value = .ok payload)
    (hrun : (writeBack codec space query options value).run env w = (o, w')) :
    Plan.Unserved env (fun _ => True) o := by
  rw [writeBack] at hrun
  split at hrun
  · rw [storeQueryResult] at hrun
    split at hrun
    · cases hrun
      exact .without _ trivial
    · rw [encode, hencode] at hrun
      exact Plan.unserved_call_bind hrun
  · cases hrun
    exact .without _ trivial

/-- A step of a read is kept waiting for ever, or it is cancelled. -/
def Stopped (env : Plan.Environment ν) (o : Option (Except Error α)) : Prop :=
  o = none ∨ env.context.cancelAt.isSome = true ∧ o = some (.error (.cache .cancelled))

/-- **A step that gets nothing from the store** does not keep a read that degrades from going on,
unless it is stopped. -/
theorem run_absorbing_unserved {missing : α} {step : Plan ν α} {A : α → Prop} {f : α → Plan ν β}
    {o : Option (Except Error β)} (hdegrade : config.onCacheError = .degrade)
    (hstep : ∀ {o : Option (Except Error α)} {w₁ : World (OutOfReach σ)},
      step.run env w = (o, w₁) → Plan.Unserved env A o) (hmissing : A missing)
    (hrun : (absorbing config missing step >>= f).run env w = (o, w')) :
    Stopped env o ∨ ∃ a w₁, A a ∧ (f a).run env w₁ = (o, w') := by
  rcases hend : step.run env w with ⟨end', w₁⟩
  rcases hstep hend with - | ⟨a, ha⟩ | ⟨e, htransport, hcancel⟩
  · rw [run_absorbing_bind, hend] at hrun
    cases hrun
    exact .inl (.inl rfl)
  · rw [run_absorbing_of_ok hend] at hrun
    exact .inr ⟨a, w₁, ha, hrun⟩
  -- A store that is out of reach does not say that it was cancelled: only the context does.
  · by_cases he : e = .cancelled
    · have hnot : absorbs config (.cache e) = false := by rw [he, absorbs]
      rw [run_absorbing_of_not hend hnot] at hrun
      cases hrun
      rw [he]
      exact .inl (.inr ⟨hcancel he, rfl⟩)
    · have habsorbs := absorbs_iff.2 ⟨hdegrade, e, rfl, htransport, he⟩
      rw [run_absorbing_of_absorbs hend habsorbs] at hrun
      exact .inr ⟨missing, w₁, hmissing, hrun⟩

/-- **A read that degrades** returns what the primary store has, if the store is out of reach. -/
theorem find_outOfReach {o : Option (Except Error (Option (CacheRead ν)))}
    (hdegrade : config.onCacheError = .degrade)
    (hencodes : ∀ value, env.primary query = .ok (some value) →
      ∃ payload, codec.encode value = .ok payload)
    (hrun : (find config codec space query options).run env w = (o, w')) :
    Stopped env o ∨ o = some ((env.primary query).map (Option.map CacheRead.fromPrimary)) := by
  cases hforce : options.forcePrimary with
  | true =>
    rw [find_force_run hforce] at hrun
    cases hrun
    exact .inr rfl
  | false =>
    rw [find_eq_attempt hforce] at hrun
    rcases run_absorbing_unserved hdegrade indexStage_unserved rfl hrun with
      hstopped | ⟨_, w₁, rfl, hrest⟩
    · exact .inl hstopped
    rcases run_absorbing_unserved hdegrade lookupByQuerySignature_unserved rfl hrest with
      hstopped | ⟨_, w₂, rfl, hlast⟩
    · exact .inl hstopped
    rw [foundOr, findInPrimary_run] at hlast
    split at hlast
    next e hprimary =>
      cases hlast
      exact .inr (by rw [hprimary]; rfl)
    next hprimary =>
      cases hlast
      exact .inr (by rw [hprimary]; rfl)
    next value hprimary =>
      obtain ⟨payload, hencode⟩ := hencodes value hprimary
      rcases run_absorbing_unserved hdegrade (writeBack_unserved hencode) trivial hlast with
        hstopped | ⟨_, w₃, -, hend⟩
      · exact .inl hstopped
      · cases hend
        exact .inr (by rw [hprimary]; rfl)

end Unreachable

/-- **Reads without a store** that degrade return what the primary store has. -/
theorem find_unreachable {o : Option (Except Error (Option (CacheRead ν)))}
    (hstore : CacheStore.Unreachable w.store) (hdegrade : config.onCacheError = .degrade)
    (hencodes : ∀ value, env.primary query = .ok (some value) →
      ∃ payload, codec.encode value = .ok payload)
    (hrun : (find config codec space query options).run env w = (o, w')) :
    Stopped env o ∨ o = some ((env.primary query).map (Option.map CacheRead.fromPrimary)) := by
  obtain ⟨w₀, heq⟩ := OutOfReach.run_eq hstore (find config codec space query options) env
  have ho : ((find config codec space query options).run env w₀).1 = o :=
    congrArg Prod.fst (heq.symm.trans hrun)
  exact find_outOfReach hdegrade hencodes (Prod.ext ho rfl)

/-! ### The policy -/

/-- **What a read makes of errors.** An error is absorbed if the policy is to degrade and it says
that the store was not reached in time, other than by cancellation. A stage of the read whose error
is absorbed counts as one that finds nothing, a storing whose error is absorbed as one that
succeeds; any other error is returned, whichever call it comes from. The primary store is asked at
most once, exactly if the cache is passed over or both lookups miss; entries are set only if the
options say so, the cache is not passed over, the primary store has a value and the query has a
name. A read that degrades returns what the primary store has, if the cache is out of reach. -/
theorem read_policy {ν σ : Type} [CacheStore σ] {config : Config} {codec : Codec ν}
    {space : KeySpace} {query : Query} {options : ReadOptions} {env : Plan.Environment ν} :
    (∀ e, absorbs config e = true ↔ config.onCacheError = .degrade ∧
      ∃ cause : CacheError, e = .cache cause ∧ cause.isTransport = true ∧ cause ≠ .cancelled) ∧
    (options.forcePrimary = true → ∀ w : World σ,
      (find config codec space query options).run env w =
        (some ((env.primary query).map (Option.map CacheRead.fromPrimary)),
          { w with fetched := w.fetched + 1 })) ∧
    (options.forcePrimary = false → ∀ w : World σ,
      Decides config env (indexStage codec space query options) .indexPointer w
        ((find config codec space query options).run env w)
        ((find config codec space query { options with skipIndexLookup := true }).run env) ∧
      Decides config env (lookupByQuerySignature codec space query) .querySignature w
        ((find config codec space query { options with skipIndexLookup := true }).run env w)
        ((findInPrimary config codec space query options).run env) ∧
      AsksPrimary config codec space query options env w
        ((findInPrimary config codec space query options).run env w)) ∧
    (∀ {w w' : World σ} {o : Option (Except Error (Option (CacheRead ν)))},
      (find config codec space query options).run env w = (o, w') →
        ((w'.fetched = w.fetched ∨ w'.fetched = w.fetched + 1) ∧
          (w'.fetched = w.fetched + 1 ↔ options.forcePrimary = true ∨ ∃ w₁ w₂,
            Misses config env (indexStage codec space query options) w w₁ ∧
              Misses config env (lookupByQuerySignature codec space query) w₁ w₂)) ∧
        (∀ e, (find config codec space query options).Incurs env w e →
          absorbs config (.cache e) = false → o = some (.error (.cache e))) ∧
        (∀ asked, w.Sound asked → env.limited = true ∨ w.gate.Ready → o.isSome = true) ∧
        (CacheStore.Unreachable w.store → config.onCacheError = .degrade →
          (∀ value, env.primary query = .ok (some value) →
            ∃ payload, codec.encode value = .ok payload) →
          Stopped env o ∨
            o = some ((env.primary query).map (Option.map CacheRead.fromPrimary)))) ∧
    ∀ {w w' : World (Logged σ)} {o : Option (Except Error (Option (CacheRead ν)))},
      (find config codec space query options).run env w = (o, w') →
        ∃ answers, w'.store.answers = w.store.answers ++ answers ∧ ∀ a ∈ answers,
          (a.call.kind ≠ .get → options.cacheResult = true ∧ options.forcePrimary = false ∧
            (∃ value, env.primary query = .ok (some value)) ∧ query.signature?.isSome = true) ∧
          ∀ e, a.error? = some e → absorbs config (.cache e) = false →
            o = some (.error (.cache e)) := by
  refine ⟨fun e => absorbs_iff, fun hforce w => find_force_run hforce w, fun hforce w => ?_,
    fun {w w' o} hrun => ?_, fun {w w' o} hrun => ?_⟩
  · refine ⟨?_, ?_, findInPrimary_asks w⟩
    · rw [find_eq_attempt hforce, find_skip_eq hforce]
      exact attempt_decides (allSteps_indexStage (P := fun _ => True) fun _ _ => trivial) w
    · rw [find_skip_eq hforce]
      exact attempt_decides
        (allSteps_lookupByQuerySignature (P := fun _ => True) fun _ _ => trivial) w
  · refine ⟨find_fetched hrun, fun e hincurs he => failsFast_find.run_eq hincurs he hrun,
      fun asked hsound hready => ?_, fun hstore hdegrade hencodes =>
        find_unreachable hstore hdegrade hencodes hrun⟩
    have hsome := Plan.run_isSome (p := find config codec space query options) hsound hready
    rwa [hrun] at hsome
  · obtain ⟨answers, hlogs⟩ := Plan.run_logged hrun
    refine ⟨answers, hlogs.log, fun a ha => ⟨?_, fun e he hnot => ?_⟩⟩
    · exact hlogs.calls (fun c => c.kind ≠ .get → options.cacheResult = true ∧
        options.forcePrimary = false ∧ (∃ value, env.primary query = .ok (some value)) ∧
          query.signature?.isSome = true) (fun _ => True)
        (allSteps_find (fun _ _ hget => (hget rfl).elim)
          fun hcache hforce hvalue hsignature _ _ _ => ⟨hcache, hforce, hvalue, hsignature⟩) a ha
    · exact failsFast_find.run_eq (hlogs.errors a ha e he) hnot hrun

/-- A store that refuses everything, behind a gate that nobody else uses. -/
def refusingStore : World FailingStore := { now := 0, gate := Gate.ofCapacity 2, store := {} }

/-- A primary store that holds the users of age one, whatever it is asked for. -/
def usersPrimary : Plan.Environment Json :=
  ⟨{}, none, fun _ => ⟨"r"⟩, fun _ => .ok (some usersOfAgeOne)⟩

/-- Without its store, a read that degrades returns the users, and says that they are not from the
cache. One that does not degrade returns the refusal of its first call and asks nobody else. -/
theorem read_policy_refused : ∃ q w₁ w₂,
    Compiler.compile ⟨.relational, "?"⟩ (.equal "age" (.num (.int 1))) = .ok q ∧
    (find {} (Codec.json .records) ⟨"app", "users"⟩ q { cacheResult := true }).run usersPrimary
      refusingStore = (some (.ok (some ⟨usersOfAgeOne, .primary⟩)), w₁) ∧
    (find { onCacheError := .propagate } (Codec.json .records) ⟨"app", "users"⟩ q
      { cacheResult := true }).run usersPrimary refusingStore =
        (some (.error (.cache FailingStore.refusal)), w₂) ∧ w₂.fetched = 0 := by
  obtain ⟨q, hq⟩ : ∃ q, Compiler.compile ⟨.relational, "?"⟩ (.equal "age" (.num (.int 1))) =
    .ok q := ⟨_, rfl⟩
  have hstage : (indexStage (Codec.json .records) ⟨"app", "users"⟩ q
      { cacheResult := true }).run usersPrimary refusingStore =
        (some (.error (.cache FailingStore.refusal)), { refusingStore with nextTicket := 1 }) := by
    cases hq
    rfl
  have hidle : refusingStore.gate.Idle := ⟨rfl, rfl, rfl⟩
  have hrefused : (find { onCacheError := .propagate } (Codec.json .records) ⟨"app", "users"⟩ q
      { cacheResult := true }).run usersPrimary refusingStore =
        (some (.error (.cache FailingStore.refusal)), { refusingStore with nextTicket := 1 }) ∧ _ :=
    (read_policy.2.2.1 rfl refusingStore).1.failed _ _ hstage rfl
  rcases hrun : (find {} (Codec.json .records) ⟨"app", "users"⟩ q { cacheResult := true }).run
    usersPrimary refusingStore with ⟨o, w₁⟩
  obtain ⟨-, -, hends, hunreachable⟩ := read_policy.2.2.2.1 hrun
  have hsome := hends _ hidle.sound_world (.inr (hidle.ready (by decide)))
  rcases hunreachable (FailingStore.unreachable {}) rfl (fun _ _ => ⟨_, rfl⟩) with
    (rfl | ⟨hcancel, -⟩) | rfl
  · cases hsome
  · cases hcancel
  · exact ⟨q, w₁, _, hq, hrun, hrefused.1, hrefused.2⟩

end QueryCache.Cache
