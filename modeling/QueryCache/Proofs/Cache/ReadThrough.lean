import QueryCache.Proofs.Cache.ReadPolicy
import QueryCache.Proofs.Cache.Reading
import QueryCache.Proofs.Plan.Answered

/-!
# Reading through the cache

If no call goes wrong, what a read finds in the cache is a function of what the store holds: first
what the pointer of the query leads to, then the stored result of the query. A value from the
primary store becomes this result. Neither the pointer of the query nor the payload that it leads to
stands under the key of the result, so the next read passes the pointer as the first one has, and
finds the result.

## Main definitions

* `Cache.indexed`, `Cache.served` : what the cache has for a query.

## Main results

* `Query.pointerKey_ne_queryKey` : the pointer of a query and its result have different keys.
* `Cache.find_answered` : reads whose calls are all answered.
* `Cache.findInPrimary_answered` : what a read leaves that goes to the primary store.
* `Cache.read_through` : reads after a read from the primary store.
-/

namespace QueryCache

/-! ### The two keys of a query -/

theorem Signature.length_lt_ofCondition (c : Condition) :
    (ofCondition c).cacheValue.length < (ofCondition c).cacheKey.length := by
  have hseparator : keySeparator.length = 1 := rfl
  simp only [ofCondition, String.length_append]
  omega

/-- The operators make the key of conditions in a row longer than their values. -/
theorem Signature.length_lt_concat {s : Signature} (cs : List Condition)
    (h : s.cacheValue.length < s.cacheKey.length) :
    (s.concat (cs.map ofCondition)).cacheValue.length <
      (s.concat (cs.map ofCondition)).cacheKey.length := by
  induction cs generalizing s with
  | nil => exact h
  | cons c rest ih =>
    have hc := length_lt_ofCondition c
    refine ih (s := s.append (ofCondition c)) ?_
    simp only [append, String.length_append]
    omega

/-- **The pointer of a query and its result** have different keys, however the query was
assembled. -/
theorem Query.pointerKey_ne_queryKey {c : Compiler} {a : Assembly} {q : Query} {space : KeySpace}
    {pointer cacheKey : String} (hq : a.clause c = .ok (.compiled q))
    (hpointer : q.pointerKey? space = some pointer) (hkey : q.cacheKey? = some cacheKey) :
    pointer ≠ space.queryKey cacheKey := by
  have hsignature := Assembly.signature_of_clause hq
  cases hleaves : a.leaves c.target with
  | nil =>
    rw [hleaves] at hsignature
    rw [Query.cacheKey?, hsignature] at hkey
    cases hkey
  | cons leaf rest =>
    rw [hleaves] at hsignature
    have hlength := Signature.length_lt_concat rest (Signature.length_lt_ofCondition leaf)
    rw [Query.cacheKey?, hsignature] at hkey
    rw [Query.pointerKey?, hsignature] at hpointer
    cases hkey
    simp only [List.map_cons, Signature.concat?] at hpointer
    split at hpointer
    · cases hpointer
      intro heq
      have hvalue := (String.append_right_inj _).1 heq
      rw [hvalue] at hlength
      exact absurd hlength (lt_irrefl _)
    · cases hpointer

namespace Cache

variable {ν α σ : Type} {config : Config} {codec : Codec ν} {space : KeySpace} {query : Query}
  {options : ReadOptions} {env : Plan.Environment ν} {m : Contents}

/-! ### What the cache has for a query -/

/-- What the first stage of a read finds. -/
def indexed (codec : Codec ν) (space : KeySpace) (query : Query) (options : ReadOptions)
    (m : Contents) : Except Error (Option ν) :=
  if query.defaultCacheable && !options.skipIndexLookup then foundBy codec space query m
  else .ok none

/-- What the first two stages of a read find. -/
def served (codec : Codec ν) (space : KeySpace) (query : Query) (options : ReadOptions)
    (m : Contents) : Except Error (Option (CacheRead ν)) :=
  match indexed codec space query options m with
  | .error e => .error e
  | .ok (some value) => .ok (some ⟨value, .indexPointer⟩)
  | .ok none => (storedResult codec space query m).map (Option.map fun value =>
      ⟨value, .querySignature⟩)

theorem looks_indexStage :
    (indexStage codec space query options).Looks (indexed codec space query options) where
  gets _ := allSteps_indexStage fun _ _ => rfl
  ends h := by
    rw [indexStage] at h
    rw [indexed]
    split at h
    next hstage =>
      rw [if_pos hstage]
      exact lookupByEquality_ends_never_iff.1 h
    next hstage =>
      rw [if_neg hstage]
      obtain ⟨ho, hs⟩ := Plan.ends_pure_iff.1 h
      exact ⟨ho, hs⟩

theorem looks_lookupByQuerySignature :
    (lookupByQuerySignature codec space query : Plan ν _).Looks
      (storedResult codec space query) where
  gets _ := allSteps_lookupByQuerySignature fun _ _ => rfl
  ends h := lookupByQuerySignature_ends_never_iff.1 h

/-! ### What cannot be read -/

theorem absorbs_of_isDecode {e : Error} (h : e.isDecode = true) : absorbs config e = false := by
  unfold Error.isDecode at h
  split at h
  · rfl
  · cases h

theorem isDecode_of_decode {codec : Codec α} {key : String} {bytes : ByteArray} {e : CacheError}
    (h : decode codec key bytes = .error e) : (Error.cache e).isDecode = true := by
  rw [decode] at h
  split at h
  · cases h
  · cases h
    rfl

theorem isDecode_of_pointerTarget {key : String} {bytes : ByteArray} {e : CacheError}
    (h : pointerTarget key bytes = .error e) : (Error.cache e).isDecode = true := by
  rw [pointerTarget] at h
  split at h
  · cases h
  · cases h
    rfl

theorem isDecode_of_foundBy {codec : Codec α} {e : Error}
    (h : foundBy codec space query m = .error e) : e.isDecode = true := by
  rw [foundBy] at h
  split at h
  · cases h
  rw [found] at h
  split at h
  · cases h
  split at h
  next e' htarget =>
    cases h
    exact isDecode_of_pointerTarget htarget
  split at h
  · cases h
  split at h
  next e' hdecode =>
    cases h
    exact isDecode_of_decode hdecode
  next => cases h

theorem isDecode_of_indexed {e : Error} (h : indexed codec space query options m = .error e) :
    e.isDecode = true := by
  rw [indexed] at h
  split at h
  · exact isDecode_of_foundBy h
  · cases h

theorem isDecode_of_storedResult {codec : Codec α} {e : Error}
    (h : storedResult codec space query m = .error e) : e.isDecode = true := by
  rw [storedResult] at h
  split at h
  · cases h
  split at h
  · cases h
  split at h
  next e' hdecode =>
    cases h
    exact isDecode_of_decode hdecode
  next => cases h

/-! ### Reads whose calls are answered -/

section Answered

variable [CacheStore σ] [LawfulStore σ]

/-- A stage of a read that is answered ends the read, or finds nothing, and then the read goes
on. -/
theorem attempt_answered {stage : Plan ν (Option ν)} {look : Contents → Except Error (Option ν)}
    {source : ReadSource} {next : Plan ν (Option (CacheRead ν))} {w : World (Logged σ)}
    (hlooks : stage.Looks look)
    (hdecode : ∀ {e}, look w.contents = .error e → e.isDecode = true)
    (h : (attempt config stage source next).Answered env w) : ∃ w₁, w.OnlyRead w₁ ∧
      match look w.contents with
      | .error e => (attempt config stage source next).run env w = (some (.error e), w₁)
      | .ok (some value) => (attempt config stage source next).run env w =
          (some (.ok (some ⟨value, source⟩)), w₁)
      | .ok none => (attempt config stage source next).run env w = next.run env w₁ ∧
          next.Answered env w₁ := by
  obtain ⟨habsorbing, hnext⟩ := Plan.Answered.of_bind h
  obtain ⟨w₁, hrun, hread⟩ := hlooks.run (Plan.Answered.of_recover habsorbing).1
  refine ⟨w₁, hread, ?_⟩
  rcases hlook : look w.contents with e | - | value
  · rw [hlook] at hrun
    exact run_absorbing_of_not hrun (absorbs_of_isDecode (hdecode hlook))
  · rw [hlook] at hrun
    refine ⟨run_absorbing_of_ok hrun, hnext (a := none) ?_⟩
    rw [absorbing, Plan.run_recover, hrun]
    rfl
  · rw [hlook] at hrun
    exact run_absorbing_of_ok hrun

/-- **A read that is answered** ends with what the cache has for the query, or goes to the primary
store. -/
theorem find_answered {w : World (Logged σ)} (hforce : options.forcePrimary = false)
    (h : (find config codec space query options).Answered env w) : ∃ w₁, w.OnlyRead w₁ ∧
      match served codec space query options w.contents with
      | .error e => (find config codec space query options).run env w = (some (.error e), w₁)
      | .ok (some r) =>
        (find config codec space query options).run env w = (some (.ok (some r)), w₁)
      | .ok none => (find config codec space query options).run env w =
            (findInPrimary config codec space query options).run env w₁ ∧
          (findInPrimary config codec space query options).Answered env w₁ := by
  rw [find_eq_attempt hforce] at h ⊢
  obtain ⟨w₁, hread, hindex⟩ := attempt_answered looks_indexStage isDecode_of_indexed h
  rw [served]
  rcases hindexed : indexed codec space query options w.contents with e | - | value
  · rw [hindexed] at hindex
    exact ⟨w₁, hread, hindex⟩
  · rw [hindexed] at hindex
    obtain ⟨hrun, hanswered⟩ := hindex
    obtain ⟨w₂, hread', hlookup⟩ :=
      attempt_answered looks_lookupByQuerySignature isDecode_of_storedResult hanswered
    rw [hread.contents] at hlookup
    refine ⟨w₂, hread.trans hread', ?_⟩
    rw [hrun]
    rcases hstored : storedResult codec space query w.contents with e | - | value <;>
      rwa [hstored] at hlookup
  · rw [hindexed] at hindex
    exact ⟨w₁, hread, hindex⟩

variable {value : ν} {cacheKey : String} {w w₁ : World σ}

omit [CacheStore σ] [LawfulStore σ] in
/-- Storing a result stores its payload, if there is one. -/
theorem storeQueryResult_ends_never {codec : Codec α} {value : α} {ids : Nat → RecordId}
    {s s' : Snapshot} {o : Option (Except Error Bool)} (hkey : query.cacheKey? = some cacheKey)
    (h : (storeQueryResult codec space query value : Plan ν _).Ends .never ids s o s') :
    (∃ payload, codec.encode value = .ok payload ∧ o = some (.ok true) ∧
      s'.contents = Function.update s.contents (space.queryKey cacheKey) (some payload)) ∨
    ∃ reason, o = some (.error (.cache (.encode reason))) := by
  rw [storeQueryResult, hkey] at h
  rcases Plan.ends_lift_bind_iff.1 h with ⟨payload, hpayload, h⟩ | ⟨e, hencode, rfl, -⟩
  · rcases Plan.ends_set_bind_iff.1 h with h | ⟨hstop, -⟩
    · obtain ⟨rfl, rfl⟩ := Plan.ends_pure_iff.1 h
      exact .inl ⟨payload, encode_eq_ok hpayload, rfl, rfl⟩
    · exact (Mishaps.not_stop_never hstop).elim
  · rw [encode] at hencode
    split at hencode
    · cases hencode
    next reason _ =>
      cases hencode
      exact .inr ⟨reason, rfl⟩

/-- **A value from the primary store** has become the result of the query. -/
theorem findInPrimary_answered (hcache : options.cacheResult = true)
    (hkey : query.cacheKey? = some cacheKey)
    (h : (findInPrimary config codec space query options).Answered env w)
    (hrun : (findInPrimary config codec space query options).run env w =
      (some (.ok (some ⟨value, .primary⟩)), w₁)) :
    ∃ payload, codec.encode value = .ok payload ∧
      w₁.contents = Function.update w.contents (space.queryKey cacheKey) (some payload) := by
  rw [findInPrimary_eq] at h
  obtain ⟨-, hstores⟩ := Plan.Answered.of_bind h
  rw [findInPrimary_run] at hrun
  split at hrun
  · cases hrun
  · cases hrun
  next value' hprimary =>
    have hfetch : (Plan.fetchPrimary query).run env w =
        (some (.ok (some value')), { w with fetched := w.fetched + 1 }) := by
      rw [Plan.fetchPrimary, Plan.run, hprimary]
      rfl
    obtain ⟨habsorbing, -⟩ := Plan.Answered.of_bind (hstores hfetch)
    obtain ⟨result, w₂, hwrite, hends⟩ := (Plan.Answered.of_recover habsorbing).1.ends
    rw [writeBack, if_pos hcache] at hends
    rcases storeQueryResult_ends_never hkey hends with
      ⟨payload, hencode, hresult, hcontents⟩ | ⟨reason, hresult⟩
    · cases hresult
      rw [run_absorbing_of_ok hwrite] at hrun
      cases hrun
      exact ⟨payload, hencode, hcontents⟩
    · cases hresult
      rw [run_absorbing_of_not hwrite rfl] at hrun
      cases hrun

/-- **Invalidating a result** says whether there was one, and removes this entry. -/
theorem invalidateQueryResult_answered (hkey : query.cacheKey? = some cacheKey)
    (h : (invalidateQueryResult space query : Plan ν Bool).Answered env w) :
    ∃ w₁, (invalidateQueryResult space query : Plan ν Bool).run env w =
        (some (.ok (w.contents (space.queryKey cacheKey)).isSome), w₁) ∧
      w₁.contents = Function.update w.contents (space.queryKey cacheKey) none := by
  rw [invalidateQueryResult, hkey] at h ⊢
  obtain ⟨reply, w₁, hcall, -⟩ := h
  obtain ⟨rfl, hafter⟩ := World.guarded_answers hcall
  refine ⟨w₁, ?_, congrArg Snapshot.contents hafter⟩
  change (Plan.call _ _ : Plan ν Bool).run env w = _
  rw [Plan.run, hcall]
  rfl

end Answered

/-! ### Reads after a read -/

/-- **The first stage of a read** does not depend on what stands under a key that neither holds the
pointer of the query nor is named by it. -/
theorem indexed_update {key : String} (bytes : Option ByteArray)
    (hne : ∀ pointer, query.pointerKey? space = some pointer → pointer ≠ key)
    (hnames : ∀ pointer, query.pointerKey? space = some pointer → m pointer ≠ some key.toUTF8) :
    indexed codec space query options (Function.update m key bytes) =
      indexed codec space query options m := by
  rw [indexed, indexed, foundBy, foundBy]
  cases hpointer : query.pointerKey? space with
  | none => rfl
  | some pointer =>
    have hfound : found codec (Function.update m key bytes) pointer = found codec m pointer := by
      rw [found, found, Function.update_of_ne (hne pointer hpointer)]
      cases htarget : m pointer with
      | none => rfl
      | some target =>
        dsimp only
        cases hid : pointerTarget pointer target with
        | error e => rfl
        | ok id =>
          have hother : id.payloadKey ≠ key := by
            rintro rfl
            exact hnames pointer hpointer (by rw [htarget, ← toBytes_of_pointerTarget hid]; rfl)
          dsimp only
          rw [Function.update_of_ne hother]
    simp only [hfound]

theorem storedResult_of_payload {codec : Codec α} {value : α} {cacheKey : String}
    {payload : ByteArray} (hkey : query.cacheKey? = some cacheKey)
    (hpayload : m (space.queryKey cacheKey) = some payload)
    (hdecode : codec.decode payload = .ok value) :
    storedResult codec space query m = .ok (some value) := by
  simp only [storedResult, hkey, hpayload, decode_eq_ok hdecode]

theorem storedResult_of_none {codec : Codec α} {cacheKey : String}
    (hkey : query.cacheKey? = some cacheKey) (hnone : m (space.queryKey cacheKey) = none) :
    storedResult codec space query m = .ok none := by
  simp only [storedResult, hkey, hnone]

theorem served_eq_none_iff : served codec space query options m = .ok none ↔
    indexed codec space query options m = .ok none ∧
      storedResult codec space query m = .ok none := by
  rw [served]
  rcases indexed codec space query options m with e | - | value
  · simp
  · rcases storedResult codec space query m with e | - | value <;> simp [Except.map]
  · simp

/-- What the cache has is not from the primary store. -/
theorem source_of_served {r : CacheRead ν} (h : served codec space query options m = .ok (some r)) :
    r.source ≠ .primary := by
  rw [served] at h
  split at h
  · cases h
  · cases h
    nofun
  · rcases hstored : storedResult codec space query m with e | - | value <;> rw [hstored] at h <;>
      cases h
    nofun

/-- **Reading through the cache.** Let a read of an assembled query with a signature return a value
from the primary store, with all its calls answered and its result to be stored, and let the pointer
of the query not name the result of the query.

Then the value stands in the cache as the result of the query: as long as the store holds the same,
another such read whose calls are answered returns it as this result, asks the primary store for
nothing and only reads. To invalidate the result says that there was one and removes its entry and
nothing else; to do so again says that there was none and changes nothing, and the next read asks
the primary store. -/
theorem read_through [CacheStore σ] [LawfulStore σ] {c : Compiler} {a : Assembly} {q : Query}
    {cacheKey : String} {value : ν} {w w₁ : World (Logged σ)}
    (hq : a.clause c = .ok (.compiled q)) (hkey : q.cacheKey? = some cacheKey)
    (hcache : options.cacheResult = true) (hforce : options.forcePrimary = false)
    (hcodec : ∀ payload, codec.encode value = .ok payload → codec.decode payload = .ok value)
    (hnames : ∀ pointer, q.pointerKey? space = some pointer →
      w.contents pointer ≠ some (space.queryKey cacheKey).toUTF8)
    (hanswered : (find config codec space q options).Answered env w)
    (hfind : (find config codec space q options).run env w =
      (some (.ok (some ⟨value, .primary⟩)), w₁)) :
    (∀ {env₂ : Plan.Environment ν} {w₂ : World (Logged σ)}, w₂.contents = w₁.contents →
      (find config codec space q options).Answered env₂ w₂ →
        ∃ w₃, (find config codec space q options).run env₂ w₂ =
            (some (.ok (some ⟨value, .querySignature⟩)), w₃) ∧ w₂.OnlyRead w₃) ∧
    (∀ {env₂ : Plan.Environment ν} {w₂ : World (Logged σ)}, w₂.contents = w₁.contents →
      (invalidateQueryResult space q : Plan ν Bool).Answered env₂ w₂ →
        ∃ w₃, (invalidateQueryResult space q).run env₂ w₂ = (some (.ok true), w₃) ∧
          w₃.contents = Function.update w₁.contents (space.queryKey cacheKey) none) ∧
    (∀ {env₂ : Plan.Environment ν} {w₂ : World (Logged σ)},
      w₂.contents = Function.update w₁.contents (space.queryKey cacheKey) none →
      (invalidateQueryResult space q : Plan ν Bool).Answered env₂ w₂ →
        ∃ w₃, (invalidateQueryResult space q).run env₂ w₂ = (some (.ok false), w₃) ∧
          w₃.contents = w₂.contents) ∧
    ∀ {env₂ : Plan.Environment ν} {w₂ : World (Logged σ)},
      w₂.contents = Function.update w₁.contents (space.queryKey cacheKey) none →
      (find config codec space q options).Answered env₂ w₂ →
        ∃ result w₃, (find config codec space q options).run env₂ w₂ = (some result, w₃) ∧
          w₃.fetched = w₂.fetched + 1 := by
  have hne : ∀ pointer, q.pointerKey? space = some pointer →
      pointer ≠ space.queryKey cacheKey := fun pointer hpointer =>
    Query.pointerKey_ne_queryKey hq hpointer hkey
  obtain ⟨hnone, payload, hencode, hcontents⟩ :
      served codec space q options w.contents = .ok none ∧ ∃ payload,
        codec.encode value = .ok payload ∧
          w₁.contents = Function.update w.contents (space.queryKey cacheKey) (some payload) := by
    obtain ⟨w₀, hread, hserved⟩ := find_answered hforce hanswered
    rcases hmatch : served codec space q options w.contents with e | - | r
    · rw [hmatch] at hserved
      cases hfind.symm.trans hserved
    · rw [hmatch] at hserved
      obtain ⟨hrun, hprimary⟩ := hserved
      have hstores := findInPrimary_answered hcache hkey hprimary (hrun.symm.trans hfind)
      rw [hread.contents] at hstores
      exact ⟨rfl, hstores⟩
    · rw [hmatch] at hserved
      cases hfind.symm.trans hserved
      exact (source_of_served hmatch rfl).elim
  have hindexed := (served_eq_none_iff.1 hnone).1
  have hresult : w₁.contents (space.queryKey cacheKey) = some payload := by
    rw [hcontents, Function.update_self]
  have hfilled : served codec space q options w₁.contents =
      .ok (some ⟨value, .querySignature⟩) := by
    have hindex : indexed codec space q options w₁.contents = .ok none := by
      rw [hcontents, indexed_update _ hne hnames, hindexed]
    rw [served, hindex, storedResult_of_payload hkey hresult (hcodec payload hencode)]
    rfl
  have hemptied : served codec space q options
      (Function.update w₁.contents (space.queryKey cacheKey) none) = .ok none := by
    refine served_eq_none_iff.2 ⟨?_, storedResult_of_none hkey (Function.update_self ..)⟩
    rw [hcontents, Function.update_idem, indexed_update _ hne hnames, hindexed]
  refine ⟨fun hsame hagain => ?_, fun hsame hagain => ?_, fun hsame hagain => ?_,
    fun hsame hagain => ?_⟩
  · obtain ⟨w₃, hread, hserved⟩ := find_answered hforce hagain
    rw [hsame, hfilled] at hserved
    exact ⟨w₃, hserved, hread⟩
  · obtain ⟨w₃, hrun, hafter⟩ := invalidateQueryResult_answered hkey hagain
    rw [hsame, hresult] at hrun
    exact ⟨w₃, hrun, by rw [hafter, hsame]⟩
  · obtain ⟨w₃, hrun, hafter⟩ := invalidateQueryResult_answered hkey hagain
    rw [hsame, Function.update_self] at hrun
    exact ⟨w₃, hrun, by rw [hafter, hsame, Function.update_idem]⟩
  · obtain ⟨w₃, hread, hserved⟩ := find_answered hforce hagain
    rw [hsame, hemptied] at hserved
    obtain ⟨hrun, hprimary⟩ := hserved
    obtain ⟨result, w₄, hrest, -⟩ := hprimary.ends
    refine ⟨result, w₄, hrun.trans hrest, ?_⟩
    rw [fetched_of_findInPrimary hrest, hread.fetched]

/-- A store in memory that is empty, behind a gate that nobody else uses. -/
def emptyStore : World (Logged MemoryStore) :=
  { now := 0, gate := Gate.ofCapacity 2, store := { inner := {} } }

/-- The users of age one are read from the primary store and then from the cache, once more from the
primary store after their result has been invalidated. -/
theorem read_through_users : ∃ q w₁ w₂ w₃ w₄ w₅ result,
    Compiler.compile ⟨.relational, "?"⟩ (.equal "age" (.num (.int 1))) = .ok q ∧
    (find {} (Codec.json .records) ⟨"app", "users"⟩ q { cacheResult := true }).run usersPrimary
      emptyStore = (some (.ok (some ⟨usersOfAgeOne, .primary⟩)), w₁) ∧
    (find {} (Codec.json .records) ⟨"app", "users"⟩ q { cacheResult := true }).run usersPrimary
      w₁ = (some (.ok (some ⟨usersOfAgeOne, .querySignature⟩)), w₂) ∧ w₁.OnlyRead w₂ ∧
    (invalidateQueryResult ⟨"app", "users"⟩ q).run usersPrimary w₂ = (some (.ok true), w₃) ∧
    (invalidateQueryResult ⟨"app", "users"⟩ q).run usersPrimary w₃ = (some (.ok false), w₄) ∧
    (find {} (Codec.json .records) ⟨"app", "users"⟩ q { cacheResult := true }).run usersPrimary
      w₄ = (some result, w₅) ∧ w₅.fetched = w₄.fetched + 1 := by
  obtain ⟨q, w₁, hq, hfind, hkey⟩ : ∃ q w₁,
      Compiler.compile ⟨.relational, "?"⟩ (.equal "age" (.num (.int 1))) = .ok q ∧
      (find {} (Codec.json .records) ⟨"app", "users"⟩ q { cacheResult := true }).run usersPrimary
        emptyStore = (some (.ok (some ⟨usersOfAgeOne, .primary⟩)), w₁) ∧
      ∃ cacheKey, q.cacheKey? = some cacheKey := ⟨_, _, rfl, rfl, _, rfl⟩
  obtain ⟨cacheKey, hkey⟩ := hkey
  have hclause : (Assembly.compile (.equal "age" (.num (.int 1)))).clause ⟨.relational, "?"⟩ =
      .ok (.compiled q) := by
    rw [Assembly.clause, hq]
    rfl
  have hnames : ∀ pointer, q.pointerKey? ⟨"app", "users"⟩ = some pointer →
      emptyStore.contents pointer ≠ some (KeySpace.queryKey ⟨"app", "users"⟩ cacheKey).toUTF8 := by
    intro pointer _ hstored
    have hempty : emptyStore.contents pointer = none := rfl
    cases hempty.symm.trans hstored
  have hidle : emptyStore.gate.Idle := ⟨rfl, rfl, rfl⟩
  have hcalm : Plan.Calm usersPrimary (fun _ => 1) emptyStore :=
    ⟨hidle.sound_world, rfl, rfl, by decide, fun _ _ => ⟨_, _, rfl⟩⟩
  obtain ⟨hagain, hgone, hnone, hprimary⟩ := read_through hclause hkey rfl rfl
    decode_usersOfAgeOne hnames (hcalm.answered _) hfind
  have hcalm₁ := hcalm.keeps (Plan.run_keeps hcalm.sound hfind)
  obtain ⟨w₂, hrun₂, hread⟩ := hagain rfl (hcalm₁.answered _)
  have hcalm₂ := hcalm₁.keeps (Plan.run_keeps hcalm₁.sound hrun₂)
  obtain ⟨w₃, hrun₃, hcontents⟩ := hgone hread.contents (hcalm₂.answered _)
  have hcalm₃ := hcalm₂.keeps (Plan.run_keeps hcalm₂.sound hrun₃)
  obtain ⟨w₄, hrun₄, hsame⟩ := hnone hcontents (hcalm₃.answered _)
  have hcalm₄ := hcalm₃.keeps (Plan.run_keeps hcalm₃.sound hrun₄)
  obtain ⟨result, w₅, hrun₅, hfetched⟩ := hprimary (hsame.trans hcontents) (hcalm₄.answered _)
  exact ⟨q, w₁, w₂, w₃, w₄, w₅, result, hq, hfind, hrun₂, hread, hrun₃, hrun₄, hrun₅, hfetched⟩

end Cache

end QueryCache
