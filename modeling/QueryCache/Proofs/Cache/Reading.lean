import QueryCache.Proofs.Cache.QueryResults
import QueryCache.Proofs.Cache.StoreErrors

/-!
# The stages of a read

A read has up to four stages: it asks for the record behind the pointer of the query, then for the
stored result, then it goes to the primary store, and at last it may store what it got there. An
error of the cache in one of the stages is absorbed, and then the read goes on as if the stage had
found nothing, or it ends the read.

## Main definitions

* `Cache.indexStage`, `Cache.writeBack` : the first and the last stage of a read.
* `Cache.attempt` : a stage with what the read goes on with.
* `Cache.Misses` : a stage ends without a value, or with an error that is absorbed.
* `Cache.Decides` : how the end of a stage decides about the read.
* `Cache.AsksPrimary` : how a read ends that goes to the primary store.

## Main results

* `Cache.find_eq_attempt` : the stages of a read.
* `Cache.allSteps_find` : what a read may set.
* `Cache.attempt_decides` : what a read makes of the end of a stage.
* `Cache.findInPrimary_asks` : what a read makes of the answer of the primary store.
* `Cache.find_fetched` : when a read goes to the primary store.
-/

namespace QueryCache.Cache

variable {ν α β σ : Type} [CacheStore σ] {config : Config} {codec : Codec ν} {space : KeySpace}
  {query : Query} {options : ReadOptions} {env : Plan.Environment ν} {w w' w₁ : World σ}

/-! ### Stages -/

/-- The first stage of a read: the record behind the pointer, unless pointers are passed over. -/
def indexStage (codec : Codec ν) (space : KeySpace) (query : Query) (options : ReadOptions) :
    Plan ν (Option ν) :=
  if query.defaultCacheable && !options.skipIndexLookup then lookupByEquality codec space query
  else pure none

/-- The last stage of a read: its value is stored as the result of the query, if the options say
so. -/
def writeBack (codec : Codec ν) (space : KeySpace) (query : Query) (options : ReadOptions)
    (value : ν) : Plan ν Bool :=
  if options.cacheResult then storeQueryResult codec space query value else pure false

/-- A read ends with what a stage has found, or goes on. -/
def foundOr (source : ReadSource) (next : Plan ν (Option (CacheRead ν))) :
    Option ν → Plan ν (Option (CacheRead ν))
  | some value => pure (some ⟨value, source⟩)
  | none => next

/-- A stage of a read whose errors may be absorbed, and what the read goes on with. -/
def attempt (config : Config) (stage : Plan ν (Option ν)) (source : ReadSource)
    (next : Plan ν (Option (CacheRead ν))) : Plan ν (Option (CacheRead ν)) :=
  absorbing config none stage >>= foundOr source next

/-- **The stages of a read** that does not pass the cache over. -/
theorem find_eq_attempt (hforce : options.forcePrimary = false) :
    find config codec space query options =
      attempt config (indexStage codec space query options) .indexPointer
        (attempt config (lookupByQuerySignature codec space query) .querySignature
          (findInPrimary config codec space query options)) := by
  have hstage : (if query.defaultCacheable && !options.skipIndexLookup then
      absorbing config none (lookupByEquality codec space query) else pure none) =
        absorbing config none (indexStage codec space query options) := by
    rw [indexStage]
    split <;> rfl
  rw [find_eq, hforce, if_neg (by decide), hstage]
  refine bind_congr fun byPointer => ?_
  cases byPointer with
  | some value => rfl
  | none =>
    refine bind_congr fun stored => ?_
    cases stored <;> rfl

/-- The stages of a read that passes pointers over. -/
theorem find_skip_eq (hforce : options.forcePrimary = false) :
    find config codec space query { options with skipIndexLookup := true } =
      attempt config (lookupByQuerySignature codec space query) .querySignature
        (findInPrimary config codec space query options) := by
  have hskip : indexStage codec space query { options with skipIndexLookup := true } =
      pure none := by
    rw [indexStage, Bool.not_true, Bool.and_false]
    rfl
  have hforce' : ({ options with skipIndexLookup := true } : ReadOptions).forcePrimary = false :=
    hforce
  rw [find_eq_attempt hforce', hskip]
  rfl

/-- **The last stages of a read**: the primary store is asked, and its value may be stored. -/
theorem findInPrimary_eq : findInPrimary config codec space query options =
    Plan.fetchPrimary query >>= fun value => match value with
      | none => pure none
      | some value => absorbing config false (writeBack codec space query options value) >>=
        fun _ => pure (some (CacheRead.fromPrimary value)) := by
  refine bind_congr fun value => ?_
  cases value with
  | none => rfl
  | some value =>
    simp only [writeBack]
    split <;> rfl

/-! ### Errors that are absorbed -/

/-- **The errors that a read survives.** -/
theorem absorbs_iff {e : Error} : absorbs config e = true ↔ config.onCacheError = .degrade ∧
    ∃ cause : CacheError, e = .cache cause ∧ cause.isTransport = true ∧ cause ≠ .cancelled := by
  cases e with
  | cache cause => cases cause <;> simp [absorbs, CacheError.isTransport]
  | compile | index | config => simp [absorbs]

/-- A stage of a read ends without a value: it finds nothing, or its error is absorbed. -/
def Misses (config : Config) (env : Plan.Environment ν) (stage : Plan ν (Option α))
    (w w' : World σ) : Prop :=
  stage.run env w = (some (.ok none), w') ∨
    ∃ e, absorbs config e = true ∧ stage.run env w = (some (.error e), w')

section Absorbing

variable {missing : α} {step : Plan ν α} {f : α → Plan ν β}

theorem run_absorbing_bind (w : World σ) :
    (absorbing config missing step >>= f).run env w = match step.run env w with
      | (some (.ok a), w₁) => (f a).run env w₁
      | (some (.error e), w₁) =>
        if absorbs config e then (f missing).run env w₁ else (some (.error e), w₁)
      | (none, w₁) => (none, w₁) := by
  rw [Plan.run_bind, absorbing, Plan.run_recover]
  rcases step.run env w with ⟨- | e | a, w₁⟩
  · rfl
  · by_cases h : absorbs config e = true
    · simp only [if_pos h, Plan.run]
    · simp only [if_neg h, Plan.run]
  · rfl

theorem run_absorbing_of_ok {a : α} (h : step.run env w = (some (.ok a), w₁)) :
    (absorbing config missing step >>= f).run env w = (f a).run env w₁ := by
  rw [run_absorbing_bind, h]

theorem run_absorbing_of_absorbs {e : Error} (h : step.run env w = (some (.error e), w₁))
    (he : absorbs config e = true) :
    (absorbing config missing step >>= f).run env w = (f missing).run env w₁ := by
  rw [run_absorbing_bind, h]
  exact if_pos he

theorem run_absorbing_of_not {e : Error} (h : step.run env w = (some (.error e), w₁))
    (he : absorbs config e = false) :
    (absorbing config missing step >>= f).run env w = (some (.error e), w₁) := by
  rw [run_absorbing_bind, h]
  exact if_neg (Bool.eq_false_iff.1 he)

end Absorbing

theorem Misses.run_bind {stage : Plan ν (Option α)} (h : Misses config env stage w w')
    (f : Option α → Plan ν β) :
    (absorbing config none stage >>= f).run env w = (f none).run env w' := by
  rcases h with h | ⟨e, he, h⟩
  · exact run_absorbing_of_ok h
  · exact run_absorbing_of_absorbs h he

/-! ### Calls and fetches of the stages -/

section Steps

variable {primary : Query → Except Error (Option ν)} {P : Call → Prop} {F : Query → Prop}

theorem allSteps_readPayload {codec : Codec α} (hget : ∀ key, P (.get key)) (key : String) :
    (readPayload codec key : Plan ν _).AllSteps primary P F := by
  refine (Plan.allSteps_call (hget key)).bind fun bytes => ?_
  cases bytes with
  | none => trivial
  | some payload => exact (Plan.allSteps_lift _ _).bind fun _ => trivial

/-- Only a query with a name has a key. -/
theorem isSome_signature_of_cacheKey {cacheKey : String} (h : query.cacheKey? = some cacheKey) :
    query.signature?.isSome = true := by
  rw [Query.cacheKey?] at h
  cases hsignature : query.signature? with
  | none => simp [hsignature] at h
  | some signature => rfl

theorem isSome_signature_of_pointerKey {key : String} (h : query.pointerKey? space = some key) :
    query.signature?.isSome = true := by
  rw [Query.pointerKey?] at h
  split at h
  · cases h
  next hsignature =>
    rw [hsignature]
    rfl

/-- **Lookups** only get entries, and only for queries with a name. -/
theorem allSteps_lookupByQuerySignature {codec : Codec α}
    (hget : query.signature?.isSome = true → ∀ key, P (.get key)) :
    (lookupByQuerySignature codec space query : Plan ν _).AllSteps primary P F := by
  rw [lookupByQuerySignature_eq]
  split
  · trivial
  next cacheKey hkey => exact allSteps_readPayload (hget (isSome_signature_of_cacheKey hkey)) _

theorem allSteps_lookupByEquality {codec : Codec α}
    (hget : query.signature?.isSome = true → ∀ key, P (.get key)) :
    (lookupByEquality codec space query : Plan ν _).AllSteps primary P F := by
  rw [lookupByEquality_eq_readPayload]
  split
  · trivial
  next key hkey =>
    have hgets := hget (isSome_signature_of_pointerKey hkey)
    refine (Plan.allSteps_call (hgets key)).bind fun pointer => ?_
    cases pointer with
    | none => trivial
    | some bytes => exact (Plan.allSteps_lift _ _).bind fun id => allSteps_readPayload hgets _

theorem allSteps_indexStage (hget : query.signature?.isSome = true → ∀ key, P (.get key)) :
    (indexStage codec space query options).AllSteps primary P F := by
  rw [indexStage]
  split
  · exact allSteps_lookupByEquality hget
  · trivial

/-- **Only a result that is to be stored** and has a key is written. -/
theorem allSteps_writeBack {value : ν} (hset : options.cacheResult = true →
    query.signature?.isSome = true → ∀ key payload, P (.set key payload)) :
    (writeBack codec space query options value).AllSteps primary P F := by
  rw [writeBack]
  split
  next hcache =>
    rw [storeQueryResult]
    split
    · trivial
    next cacheKey hkey =>
      have hsets := hset hcache (isSome_signature_of_cacheKey hkey)
      refine (Plan.allSteps_lift _ _).bind fun payload => ?_
      exact (Plan.allSteps_call (hsets _ payload)).bind fun _ => trivial
  · trivial

theorem allSteps_absorbing {missing : α} {step : Plan ν α} (h : step.AllSteps primary P F) :
    (absorbing config missing step).AllSteps primary P F := by
  refine h.recover fun result => ?_
  split
  · trivial
  · split <;> trivial

theorem allSteps_attempt {stage : Plan ν (Option ν)} {source : ReadSource}
    {next : Plan ν (Option (CacheRead ν))} (h : stage.AllSteps primary P F)
    (hnext : next.AllSteps primary P F) :
    (attempt config stage source next).AllSteps primary P F := by
  refine (allSteps_absorbing h).bind fun value => ?_
  cases value with
  | none => exact hnext
  | some value => trivial

/-- **A read** sets an entry only if it may store what the primary store has for the query. -/
theorem allSteps_find (hget : query.signature?.isSome = true → ∀ key, P (.get key))
    (hset : options.cacheResult = true → options.forcePrimary = false →
      (∃ value, primary query = .ok (some value)) → query.signature?.isSome = true →
        ∀ key payload, P (.set key payload)) :
    (find config codec space query options).AllSteps primary P fun _ => True := by
  cases hforce : options.forcePrimary with
  | true =>
    rw [find_eq, if_pos hforce]
    exact Plan.AllSteps.bind ⟨trivial, trivial⟩ fun _ => trivial
  | false =>
    rw [find_eq_attempt hforce, findInPrimary_eq]
    refine allSteps_attempt (allSteps_indexStage hget)
      (allSteps_attempt (allSteps_lookupByQuerySignature hget) ⟨trivial, ?_⟩)
    rcases hprimary : primary query with e | - | value
    · trivial
    · trivial
    · refine (allSteps_absorbing (allSteps_writeBack fun hcache hsignature => ?_)).bind
        fun _ => trivial
      exact hset hcache hforce ⟨value, hprimary⟩ hsignature

end Steps

/-! ### Runs -/

/-- A read that passes the cache over. -/
theorem find_force_run (hforce : options.forcePrimary = true) (w : World σ) :
    (find config codec space query options).run env w =
      (some ((env.primary query).map (Option.map CacheRead.fromPrimary)),
        { w with fetched := w.fetched + 1 }) := by
  rw [find_eq, if_pos hforce, Plan.run_bind, Plan.fetchPrimary, Plan.run, Plan.run]
  cases env.primary query <;> rfl

/-- How the end of a stage decides about a read: what is found is the result, an error that is not
absorbed is returned before the primary store is asked, and otherwise the read goes on. -/
structure Decides (config : Config) (env : Plan.Environment ν) (stage : Plan ν (Option ν))
    (source : ReadSource) (w : World σ)
    (result : Option (Except Error (Option (CacheRead ν))) × World σ)
    (next : World σ → Option (Except Error (Option (CacheRead ν))) × World σ) : Prop where
  found : ∀ value w₁, stage.run env w = (some (.ok (some value)), w₁) →
    result = (some (.ok (some ⟨value, source⟩)), w₁)
  failed : ∀ e w₁, stage.run env w = (some (.error e), w₁) → absorbs config e = false →
    result = (some (.error e), w₁) ∧ w₁.fetched = w.fetched
  missed : ∀ w₁, Misses config env stage w w₁ → result = next w₁

section Attempt

variable {stage : Plan ν (Option ν)} {source : ReadSource} {next : Plan ν (Option (CacheRead ν))}
  {P : Call → Prop} {o : Option (Except Error (Option (CacheRead ν)))}

/-- **A stage decides** about the read. -/
theorem attempt_decides (hstage : stage.AllSteps env.primary P fun _ => False) (w : World σ) :
    Decides config env stage source w ((attempt config stage source next).run env w)
      (next.run env) where
  found _ _ h := run_absorbing_of_ok h
  failed _ _ h he := ⟨run_absorbing_of_not h he, hstage.fetched_eq h⟩
  missed _ h := h.run_bind _

theorem Misses.fetched_eq (h : Misses config env stage w w')
    (hstage : stage.AllSteps env.primary P fun _ => False) : w'.fetched = w.fetched := by
  rcases h with h | ⟨e, -, h⟩
  · exact hstage.fetched_eq h
  · exact hstage.fetched_eq h

/-- Either the primary store is not asked, or the stage misses and the read goes on. -/
theorem fetched_of_attempt (hstage : stage.AllSteps env.primary P fun _ => False)
    (hrun : (attempt config stage source next).run env w = (o, w')) :
    w'.fetched = w.fetched ∨
      ∃ w₁, Misses config env stage w w₁ ∧ next.run env w₁ = (o, w') := by
  have hdecides : Decides config env stage source w _ (next.run env) := attempt_decides hstage w
  rcases hend : stage.run env w with ⟨- | e | - | value, w₁⟩
  · rw [attempt, run_absorbing_bind, hend] at hrun
    cases hrun
    exact .inl (hstage.fetched_eq hend)
  · cases he : absorbs config e with
    | true =>
      have hmisses : Misses config env stage w w₁ := .inr ⟨e, he, hend⟩
      exact .inr ⟨w₁, hmisses, (hdecides.missed w₁ hmisses).symm.trans hrun⟩
    | false =>
      obtain ⟨hresult, hfetched⟩ := hdecides.failed e w₁ hend he
      cases hrun.symm.trans hresult
      exact .inl hfetched
  · have hmisses : Misses config env stage w w₁ := .inl hend
    exact .inr ⟨w₁, hmisses, (hdecides.missed w₁ hmisses).symm.trans hrun⟩
  · cases hrun.symm.trans (hdecides.found value w₁ hend)
    exact .inl (hstage.fetched_eq hend)

end Attempt

/-- How a read ends that goes to the primary store: with its error or without a value, as the
primary store does, or with the value, which has been stored or not; an error of the storing that
is not absorbed is returned. -/
structure AsksPrimary (config : Config) (codec : Codec ν) (space : KeySpace) (query : Query)
    (options : ReadOptions) (env : Plan.Environment ν) (w : World σ)
    (result : Option (Except Error (Option (CacheRead ν))) × World σ) : Prop where
  failed : ∀ e, env.primary query = .error e →
    result = (some (.error e), { w with fetched := w.fetched + 1 })
  nothing : env.primary query = .ok none →
    result = (some (.ok none), { w with fetched := w.fetched + 1 })
  written : ∀ value b w₁, env.primary query = .ok (some value) →
    (writeBack codec space query options value).run env { w with fetched := w.fetched + 1 } =
      (some (.ok b), w₁) → result = (some (.ok (some (.fromPrimary value))), w₁)
  absorbed : ∀ value e w₁, env.primary query = .ok (some value) →
    (writeBack codec space query options value).run env { w with fetched := w.fetched + 1 } =
      (some (.error e), w₁) → absorbs config e = true →
        result = (some (.ok (some (.fromPrimary value))), w₁)
  refused : ∀ value e w₁, env.primary query = .ok (some value) →
    (writeBack codec space query options value).run env { w with fetched := w.fetched + 1 } =
      (some (.error e), w₁) → absorbs config e = false → result = (some (.error e), w₁)

theorem findInPrimary_run (w : World σ) :
    (findInPrimary config codec space query options).run env w = match env.primary query with
      | .error e => (some (.error e), { w with fetched := w.fetched + 1 })
      | .ok none => (some (.ok none), { w with fetched := w.fetched + 1 })
      | .ok (some value) => (absorbing config false (writeBack codec space query options value) >>=
          fun _ => pure (some (CacheRead.fromPrimary value))).run env
            { w with fetched := w.fetched + 1 } := by
  rw [findInPrimary_eq, Plan.run_bind, Plan.fetchPrimary, Plan.run, Plan.run]
  rcases env.primary query with e | - | value <;> rfl

/-- **A read that goes to the primary store** ends as that store answers. -/
theorem findInPrimary_asks (w : World σ) : AsksPrimary config codec space query options env w
    ((findInPrimary config codec space query options).run env w) where
  failed e h := by rw [findInPrimary_run, h]
  nothing h := by rw [findInPrimary_run, h]
  written value b w₁ h hwrite := by
    rw [findInPrimary_run, h]
    exact run_absorbing_of_ok hwrite
  absorbed value e w₁ h hwrite he := by
    rw [findInPrimary_run, h]
    exact run_absorbing_of_absorbs hwrite he
  refused value e w₁ h hwrite he := by
    rw [findInPrimary_run, h]
    exact run_absorbing_of_not hwrite he

section Reads

variable {o : Option (Except Error (Option (CacheRead ν)))}

theorem fetched_of_findInPrimary
    (hrun : (findInPrimary config codec space query options).run env w = (o, w')) :
    w'.fetched = w.fetched + 1 := by
  rw [findInPrimary_run] at hrun
  split at hrun
  · cases hrun
    rfl
  · cases hrun
    rfl
  · have hnone (value : ν) : (absorbing config false (writeBack codec space query options value) >>=
        fun _ => pure (some (CacheRead.fromPrimary value))).AllSteps env.primary
          (fun _ => True) fun _ => False :=
      (allSteps_absorbing (allSteps_writeBack fun _ _ _ _ => trivial)).bind fun _ => trivial
    exact (hnone _).fetched_eq hrun

/-- **The primary store is asked** at most once, and exactly if the cache is passed over or both
stages before it miss. -/
theorem find_fetched (hrun : (find config codec space query options).run env w = (o, w')) :
    (w'.fetched = w.fetched ∨ w'.fetched = w.fetched + 1) ∧
      (w'.fetched = w.fetched + 1 ↔ options.forcePrimary = true ∨ ∃ w₁ w₂,
        Misses config env (indexStage codec space query options) w w₁ ∧
          Misses config env (lookupByQuerySignature codec space query) w₁ w₂) := by
  cases hforce : options.forcePrimary with
  | true =>
    rw [find_force_run hforce] at hrun
    cases hrun
    exact ⟨.inr rfl, iff_of_true rfl (.inl rfl)⟩
  | false =>
    have hindex : (indexStage codec space query options).AllSteps env.primary (fun _ => True)
        fun _ => False := allSteps_indexStage fun _ _ => trivial
    have hlookup : (lookupByQuerySignature codec space query : Plan ν _).AllSteps env.primary
        (fun _ => True) fun _ => False := allSteps_lookupByQuerySignature fun _ _ => trivial
    rw [find_eq_attempt hforce] at hrun
    -- The lookups fetch nothing, so the count tells whether the read has come past both of them.
    have hback : (∃ w₁ w₂, Misses config env (indexStage codec space query options) w w₁ ∧
        Misses config env (lookupByQuerySignature codec space query) w₁ w₂) →
          w'.fetched = w.fetched + 1 := by
      rintro ⟨w₁, w₂, hfirst, hsecond⟩
      rw [(attempt_decides hindex w).missed w₁ hfirst,
        (attempt_decides hlookup w₁).missed w₂ hsecond] at hrun
      rw [fetched_of_findInPrimary hrun, hsecond.fetched_eq hlookup, hfirst.fetched_eq hindex]
    rcases fetched_of_attempt hindex hrun with hsame | ⟨w₁, hfirst, hrest⟩
    · refine ⟨.inl hsame, fun h => ?_, fun h => hback (h.resolve_left nofun)⟩
      omega
    · rcases fetched_of_attempt hlookup hrest with hsame | ⟨w₂, hsecond, -⟩
      · have hnone := hsame.trans (hfirst.fetched_eq hindex)
        refine ⟨.inl hnone, fun h => ?_, fun h => hback (h.resolve_left nofun)⟩
        omega
      · have hmisses := hback ⟨w₁, w₂, hfirst, hsecond⟩
        exact ⟨.inr hmisses, iff_of_true hmisses (.inr ⟨w₁, w₂, hfirst, hsecond⟩)⟩

end Reads

end QueryCache.Cache
