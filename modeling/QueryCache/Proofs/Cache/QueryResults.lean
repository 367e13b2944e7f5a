import Mathlib
import QueryCache.Proofs.Cache.Lookup
import QueryCache.Proofs.Cache.Update
import QueryCache.Proofs.Joined
import QueryCache.Proofs.Query.Assembly

/-!
# Results of queries

The result of a query is kept under the operators and the value tokens of its conditions, in a row.
Neither the fields of the conditions nor the joiners and parentheses between them go into this key,
and what stands in a token is not told from what separates the parts. So a result is found by every
query whose conditions come to the same text, whatever it asks for, and by no other one.

## Main definitions

* `Assembly.resultKey?` : what the result of an assembled query is kept under.
* `Cache.storedResult` : what a store holds as the result of a query.

## Main results

* `Cache.storeQueryResult_true` : what storing a result leaves.
* `Cache.lookupByQuerySignature_ends`, `Cache.lookupByQuerySignature_ends_never_iff` : how a lookup
  of a result ends.
* `Cache.find_querySignature` : what a read finds as the result of a query is stored as such.
* `Cache.lookup_after_store` : which queries find a stored result.
-/

namespace QueryCache

theorem KeySpace.queryKey_injective (space : KeySpace) : Function.Injective space.queryKey :=
  fun _ _ h => (String.append_right_inj _).1 h

/-- The part of a condition in the key of a query's result. -/
def Condition.keyPart (c : Condition) : String :=
  c.operator.name ++ keySeparator ++ c.value.token

theorem Condition.keyPart_eq (c : Condition) :
    c.keyPart = c.operator.name ++ keySeparator ++ c.value.token := rfl

theorem map_keyPart (cs : List Condition) :
    cs.map Condition.keyPart =
      List.zipWith (fun operator token => operator.name ++ keySeparator ++ token)
        (cs.map Condition.operator) (cs.map fun c => c.value.token) := by
  induction cs with
  | nil => rfl
  | cons c rest ih => rw [List.map_cons, List.map_cons, List.map_cons, List.zipWith_cons_cons, ih,
      Condition.keyPart]

/-- What the result of an assembled query is kept under: the operators and the value tokens of its
conditions. There is nothing if it has no condition. -/
def Assembly.resultKey? (t : Target) (a : Assembly) : Option String :=
  match a.leaves t with
  | [] => none
  | first :: rest => some (keySeparator.intercalate ((first :: rest).map Condition.keyPart))

theorem Assembly.resultKey?_of_ne_nil {t : Target} {a : Assembly} (h : a.leaves t ≠ []) :
    a.resultKey? t = some (keySeparator.intercalate ((a.leaves t).map Condition.keyPart)) := by
  obtain ⟨first, rest, hcons⟩ := List.exists_cons_of_ne_nil h
  rw [resultKey?, hcons]

/-- The key of an assembled query. -/
theorem Assembly.cacheKey?_of_clause {c : Compiler} {a : Assembly} {q : Query}
    (h : a.clause c = .ok (.compiled q)) : q.cacheKey? = a.resultKey? c.target := by
  by_cases hnil : a.leaves c.target = []
  · rw [Query.cacheKey?, (outcome_of_leaves_eq_nil h hnil).2.1, resultKey?, hnil]
    rfl
  · rw [(outcome_of_leaves_ne_nil h hnil).2.1, resultKey?_of_ne_nil hnil]
    rfl

/-- A key tells the tokens of conditions with the same operators apart if no token has a separator
in it. -/
theorem tokens_eq_of_intercalate_eq : (cs cs' : List Condition) →
    cs.map Condition.operator = cs'.map Condition.operator →
    (∀ c ∈ cs, '_' ∉ c.value.token.toList) → (∀ c ∈ cs', '_' ∉ c.value.token.toList) →
    keySeparator.intercalate (cs.map Condition.keyPart) =
      keySeparator.intercalate (cs'.map Condition.keyPart) →
    cs.map (fun c => c.value.token) = cs'.map fun c => c.value.token
  | [], [], _, _, _, _ => rfl
  | c :: rest, c' :: rest', hops, hfree, hfree', h => by
    -- The operators agree, so the first token ends at the same place on both sides.
    obtain ⟨hop, hops⟩ := List.cons.inj hops
    obtain ⟨hc, hrest⟩ := List.forall_mem_cons.1 hfree
    obtain ⟨hc', hrest'⟩ := List.forall_mem_cons.1 hfree'
    have hsplit : c.value.token = c'.value.token ∧
        keySeparator.intercalate (rest.map Condition.keyPart) =
          keySeparator.intercalate (rest'.map Condition.keyPart) := by
      rcases rest with _ | ⟨d, rest⟩ <;> rcases rest' with _ | ⟨d', rest'⟩
      · simpa [Condition.keyPart, hop] using h
      · cases hops
      · cases hops
      · rw [List.map_cons, List.map_cons, List.map_cons, List.map_cons,
          String.intercalate_cons_cons, String.intercalate_cons_cons, c.keyPart_eq, c'.keyPart_eq,
          hop] at h
        have hlist := congrArg String.toList h
        simp only [String.toList_append, List.append_assoc, List.append_cancel_left_eq] at hlist
        obtain ⟨htoken, hjoined⟩ := append_mark_inj _ _ hc hc' hlist
        exact ⟨String.toList_inj.1 htoken, String.toList_inj.1 hjoined⟩
    rw [List.map_cons, List.map_cons, hsplit.1,
      tokens_eq_of_intercalate_eq rest rest' hops hrest hrest' hsplit.2]

namespace Cache

variable {ν α : Type} {config : Config} {codec : Codec α} {space : KeySpace} {query : Query}
  {mishaps : Mishaps} {ids : Nat → RecordId} {s s' : Snapshot}

/-- What a store holds as the result of a query. -/
def storedResult (codec : Codec α) (space : KeySpace) (query : Query) (m : Contents) :
    Except Error (Option α) :=
  match query.cacheKey? with
  | none => .ok none
  | some cacheKey =>
    match m (space.queryKey cacheKey) with
    | none => .ok none
    | some payload =>
      match decode codec (space.queryKey cacheKey) payload with
      | .error e => .error (.cache e)
      | .ok value => .ok (some value)

/-! ### Storing and looking up -/

/-- **What storing a result leaves**: the payload under the query's key. -/
theorem storeQueryResult_true {value : α}
    (h : (storeQueryResult codec space query value : Plan ν _).Ends mishaps ids s
      (some (.ok true)) s') :
    ∃ cacheKey payload, query.cacheKey? = some cacheKey ∧ codec.encode value = .ok payload ∧
      s'.contents = Function.update s.contents (space.queryKey cacheKey) (some payload) := by
  rw [storeQueryResult] at h
  cases hkey : query.cacheKey? with
  | none =>
    rw [hkey] at h
    cases (Plan.ends_pure_iff.1 h).1
  | some cacheKey =>
    rw [hkey] at h
    rcases Plan.ends_lift_bind_iff.1 h with ⟨payload, hpayload, h⟩ | ⟨e, -, ho, -⟩
    swap
    · cases ho
    rcases Plan.ends_set_bind_iff.1 h with h | ⟨hstop, -⟩
    swap
    · exact (Mishaps.not_stop_ok hstop).elim
    obtain ⟨-, rfl⟩ := Plan.ends_pure_iff.1 h
    exact ⟨cacheKey, payload, rfl, encode_eq_ok hpayload, rfl⟩

/-- The result of a query that has a key can be stored. -/
theorem storeQueryResult_ends {value : α} {cacheKey : String} {payload : ByteArray}
    (hkey : query.cacheKey? = some cacheKey) (hpayload : codec.encode value = .ok payload) :
    (storeQueryResult codec space query value : Plan ν _).Ends mishaps ids s (some (.ok true))
      { s with
        contents := Function.update s.contents (space.queryKey cacheKey) (some payload) } := by
  have hencode : encode codec value = .ok payload := by rw [encode, hpayload]
  rw [storeQueryResult, hkey]
  exact Plan.ends_lift_bind_iff.2 (.inl ⟨payload, hencode,
    Plan.ends_set_bind_iff.2 (.inl (Plan.ends_pure_iff.2 ⟨rfl, rfl⟩))⟩)

/-- **How a lookup of a result ends**: with what is stored, or because reading goes wrong. It
changes nothing. -/
theorem lookupByQuerySignature_ends {o : Option (Except Error (Option α))}
    (h : (lookupByQuerySignature codec space query : Plan ν _).Ends mishaps ids s o s') :
    s' = s ∧ (o = some (storedResult codec space query s.contents) ∨
      ∃ key, mishaps.Stop [.get key] o) := by
  rw [lookupByQuerySignature] at h
  rw [storedResult]
  cases hkey : query.cacheKey? with
  | none =>
    rw [hkey] at h
    obtain ⟨rfl, rfl⟩ := Plan.ends_pure_iff.1 h
    exact ⟨rfl, .inl rfl⟩
  | some cacheKey =>
    rw [hkey] at h
    rcases Plan.ends_get_bind_iff.1 h with h | ⟨hstop, rfl⟩
    swap
    · exact ⟨rfl, .inr ⟨_, hstop⟩⟩
    dsimp only
    cases hpayload : s.contents (space.queryKey cacheKey) with
    | none =>
      rw [hpayload] at h
      obtain ⟨rfl, rfl⟩ := Plan.ends_pure_iff.1 h
      exact ⟨rfl, .inl rfl⟩
    | some payload =>
      rw [hpayload] at h
      rcases Plan.ends_lift_bind_iff.1 h with ⟨value, hvalue, h⟩ | ⟨e, hvalue, rfl, rfl⟩
      · obtain ⟨rfl, rfl⟩ := Plan.ends_pure_iff.1 h
        exact ⟨rfl, .inl (by simp only [hvalue])⟩
      · exact ⟨rfl, .inl (by simp only [hvalue])⟩

/-- **A lookup of a result that is answered** ends with what is stored. -/
theorem lookupByQuerySignature_ends_never_iff {o : Option (Except Error (Option α))} :
    (lookupByQuerySignature codec space query : Plan ν _).Ends .never ids s o s' ↔
      o = some (storedResult codec space query s.contents) ∧ s' = s := by
  refine Plan.ends_never_iff fun o s' h => ?_
  obtain ⟨hsame, hstored | ⟨key, hstop⟩⟩ := lookupByQuerySignature_ends h
  · exact ⟨hstored, hsame⟩
  · exact (Mishaps.not_stop_never hstop).elim

/-! ### Reading through -/

/-- A step whose errors may be absorbed ends where it would end without that, with the same end or
as missing. -/
theorem absorbing_ends {missing : α} {step : Plan ν α} {o : Option (Except Error α)}
    (h : (absorbing config missing step).Ends mishaps ids s o s') :
    ∃ end', step.Ends mishaps ids s end' s' ∧ (o = end' ∨ o = some (.ok missing)) := by
  rcases Plan.ends_recover_iff.1 h with ⟨result, s₁, hstep, h⟩ | ⟨hstep, rfl⟩
  swap
  · exact ⟨none, hstep, .inl rfl⟩
  cases result with
  | ok a =>
    obtain ⟨rfl, rfl⟩ := Plan.ends_done_iff.1 h
    exact ⟨_, hstep, .inl rfl⟩
  | error e =>
    dsimp only at h
    split at h
    · obtain ⟨rfl, rfl⟩ := Plan.ends_done_iff.1 h
      exact ⟨_, hstep, .inr rfl⟩
    · obtain ⟨rfl, rfl⟩ := Plan.ends_done_iff.1 h
      exact ⟨_, hstep, .inl rfl⟩

section Find

variable {codec : Codec ν} {options : ReadOptions} {r : CacheRead ν}

/-- A value from the primary store says that it is from there. -/
theorem findInPrimary_source
    (h : (findInPrimary config codec space query options).Ends mishaps ids s
      (some (.ok (some r))) s') : r.source = .primary := by
  obtain ⟨fetched, s₁, -, h⟩ := h.of_bind_ok
  cases fetched with
  | none => cases (Plan.ends_pure_iff.1 h).1
  | some value =>
    dsimp only at h
    split at h
    · obtain ⟨_, s₂, -, h⟩ := h.of_bind_ok
      cases (Plan.ends_pure_iff.1 h).1
      rfl
    · cases (Plan.ends_pure_iff.1 h).1
      rfl

/-- A read that does not pass the cache over asks for a pointer, then for a stored result, and then
goes to the primary store. -/
theorem find_eq : find config codec space query options =
    if options.forcePrimary then
      Plan.fetchPrimary query >>= fun value => pure (value.map CacheRead.fromPrimary)
    else
      (if query.defaultCacheable && !options.skipIndexLookup then
        absorbing config none (lookupByEquality codec space query)
      else pure none) >>= fun byPointer => match byPointer with
        | some value => pure (some ⟨value, .indexPointer⟩)
        | none => absorbing config none (lookupByQuerySignature codec space query) >>= fun stored =>
          match stored with
          | some value => pure (some ⟨value, .querySignature⟩)
          | none => findInPrimary config codec space query options := by
  rw [find]
  split
  · rfl
  · split <;> rfl

/-- **What a read finds as the result of a query** is stored as such. -/
theorem find_querySignature
    (h : (find config codec space query options).Ends mishaps ids s (some (.ok (some r))) s')
    (hsource : r.source = .querySignature) :
    storedResult codec space query s.contents = .ok (some r.value) := by
  rw [find_eq] at h
  split at h
  · obtain ⟨fetched, s₁, -, h⟩ := h.of_bind_ok
    have hmap := (Plan.ends_pure_iff.1 h).1
    cases fetched with
    | none => cases hmap
    | some value =>
      cases hmap
      cases hsource
  obtain ⟨byPointer, s₁, hpointer, h⟩ := h.of_bind_ok
  have hsame : s₁ = s := by
    split at hpointer
    · obtain ⟨_, hstep, -⟩ := absorbing_ends hpointer
      exact (lookupByEquality_ends hstep).1
    · exact (Plan.ends_pure_iff.1 hpointer).2
  rw [hsame] at h
  cases byPointer with
  | some value =>
    cases (Plan.ends_pure_iff.1 h).1
    cases hsource
  | none =>
    obtain ⟨result, s₂, hlookup, h⟩ := h.of_bind_ok
    obtain ⟨end', hstep, hend⟩ := absorbing_ends hlookup
    cases result with
    | none => cases (findInPrimary_source h).symm.trans hsource
    | some value =>
      cases (Plan.ends_pure_iff.1 h).1
      have hok : end' = some (.ok (some value)) := by
        rcases hend with hend | hend
        · exact hend.symm
        · cases hend
      rcases (lookupByQuerySignature_ends hstep).2 with hstored | ⟨key, hstop⟩
      · exact Option.some.inj (hstored.symm.trans hok)
      · exact (Mishaps.not_stop_ok (hok ▸ hstop)).elim

/-- A read that passes pointers over and is answered finds what is stored as the result of the
query. -/
theorem find_of_storedResult {value : ν} (hforce : options.forcePrimary = false)
    (hskip : options.skipIndexLookup = true)
    (h : storedResult codec space query s.contents = .ok (some value)) :
    (find config codec space query options).Ends .never ids s
      (some (.ok (some ⟨value, .querySignature⟩))) s := by
  have hlookup : (lookupByQuerySignature codec space query : Plan ν _).Ends .never ids s
      (some (.ok (some value))) s := lookupByQuerySignature_ends_never_iff.2 ⟨by rw [h], rfl⟩
  have habsorbing : (absorbing config none
      (lookupByQuerySignature codec space query : Plan ν _)).Ends .never ids s
        (some (.ok (some value))) s :=
    Plan.ends_recover_iff.2 (.inl ⟨_, s, hlookup, .done⟩)
  rw [find_eq, hforce, hskip, Bool.not_true, Bool.and_false]
  refine Plan.ends_bind_iff.2 (.inl ⟨none, s, .done, ?_⟩)
  exact Plan.ends_bind_iff.2 (.inl ⟨some value, s, habsorbing, .done⟩)

end Find

/-! ### Other queries -/

/-- What is stored as the result of a query once a key has a payload in an empty store. -/
theorem storedResult_update {cacheKey : String} {payload : ByteArray} {value : α}
    (hdecode : codec.decode payload = .ok value) :
    storedResult codec space query
        (Function.update (fun _ => none) (space.queryKey cacheKey) (some payload)) =
      .ok (if query.cacheKey? = some cacheKey then some value else none) := by
  rw [storedResult]
  cases hkey : query.cacheKey? with
  | none => simp
  | some other =>
    by_cases heq : other = cacheKey
    · simp [heq, decode_eq_ok hdecode]
    · have hne : space.queryKey other ≠ space.queryKey cacheKey :=
        fun h => heq (space.queryKey_injective h)
      simp [heq, Function.update_of_ne hne]

/-- **Which queries find a stored result.** Let a query be assembled in some way, and let its result
be stored in an empty store. Let another one be assembled for any target.

A lookup for the other query finds this result exactly if the operators and the value tokens of both
come to the same text, whatever the fields of the conditions and the joiners and parentheses between
them; otherwise it finds nothing. A read finds something as the result of the other query only if
the texts are the same, and then this result. If both queries have the same operators in a row, and
no token has a separator in it, then the texts are the same exactly if the tokens are. -/
theorem lookup_after_store {codec : Codec ν} {c c' : Compiler} {a a' : Assembly} {q q' : Query}
    {value : ν} (hq : a.clause c = .ok (.compiled q)) (hq' : a'.clause c' = .ok (.compiled q'))
    (hstore : (storeQueryResult codec space q value : Plan ν _).Ends mishaps ids .empty
      (some (.ok true)) s)
    (hcodec : ∀ payload, codec.encode value = .ok payload → codec.decode payload = .ok value) :
    (∀ o s', (lookupByQuerySignature codec space q' : Plan ν _).Ends .never ids s o s' ↔
      o = some (.ok
          (if a'.resultKey? c'.target = a.resultKey? c.target then some value else none)) ∧
        s' = s) ∧
    (∀ {config : Config} {options : ReadOptions} {mishaps' : Mishaps} {r : CacheRead ν}
        {s' : Snapshot},
      (find config codec space q' options).Ends mishaps' ids s (some (.ok (some r))) s' →
        r.source = .querySignature →
          a'.resultKey? c'.target = a.resultKey? c.target ∧ r.value = value) ∧
    ((a.leaves c.target).map Condition.operator = (a'.leaves c'.target).map Condition.operator →
      (∀ leaf ∈ a.leaves c.target, '_' ∉ leaf.value.token.toList) →
      (∀ leaf ∈ a'.leaves c'.target, '_' ∉ leaf.value.token.toList) →
        (a'.resultKey? c'.target = a.resultKey? c.target ↔
          (a'.leaves c'.target).map (fun leaf => leaf.value.token) =
            (a.leaves c.target).map fun leaf => leaf.value.token)) := by
  obtain ⟨cacheKey, payload, hkey, hpayload, hafter⟩ := storeQueryResult_true hstore
  rw [Assembly.cacheKey?_of_clause hq] at hkey
  have hstored : storedResult codec space q' s.contents = .ok
      (if a'.resultKey? c'.target = a.resultKey? c.target then some value else none) := by
    rw [hafter, hkey, ← Assembly.cacheKey?_of_clause hq']
    exact storedResult_update (hcodec payload hpayload)
  refine ⟨fun o s' => ?_, fun {config options mishaps' r s'} hfind hsource => ?_,
    fun hops hfree hfree' => ?_⟩
  · rw [lookupByQuerySignature_ends_never_iff, hstored]
  · have hfound := (find_querySignature hfind hsource).symm.trans hstored
    split at hfound
    next hsame =>
      cases hfound
      exact ⟨hsame, rfl⟩
    next => cases hfound
  · have hne : a.leaves c.target ≠ [] := by
      intro hnil
      rw [Assembly.resultKey?, hnil] at hkey
      cases hkey
    have hne' : a'.leaves c'.target ≠ [] := by
      intro hnil
      rw [hnil] at hops
      exact hne (List.map_eq_nil_iff.1 hops)
    rw [Assembly.resultKey?_of_ne_nil hne, Assembly.resultKey?_of_ne_nil hne', Option.some.injEq]
    refine ⟨tokens_eq_of_intercalate_eq _ _ hops.symm hfree' hfree, fun htokens => ?_⟩
    rw [map_keyPart, map_keyPart, htokens, hops]

/-! ### Two queries for one number -/

/-- What the primary store holds for the users of age one. -/
def usersOfAgeOne : Json := .arr [.obj [("age", .num (.int 1)), ("level", .num (.int 7))]]

theorem decode_usersOfAgeOne : ∀ payload,
    (Codec.json .records).encode usersOfAgeOne = .ok payload →
      (Codec.json .records).decode payload = .ok usersOfAgeOne := by
  intro payload hpayload
  cases hpayload
  cbv

/-- The query for the users of age one and the one for the users of level one compile, the users of
age one are stored as the result of the first one, and both have the same key. -/
theorem exists_ageQuery_levelQuery : ∃ (q q' : Query) (s : Snapshot),
    Compiler.compile ⟨.relational, "?"⟩ (.equal "age" (.num (.int 1))) = .ok q ∧
    Compiler.compile ⟨.relational, "?"⟩ (.equal "level" (.num (.int 1))) = .ok q' ∧
    q.sql? = some "age = ?" ∧ q'.sql? = some "level = ?" ∧
    (storeQueryResult (Codec.json .records) ⟨"app", "users"⟩ q usersOfAgeOne : Plan Json _).Ends
      .never (fun _ => ⟨"r"⟩) .empty (some (.ok true)) s := by
  exact ⟨_, _, _, rfl, rfl, rfl, rfl, storeQueryResult_ends rfl rfl⟩

/-- A lookup by level finds what was stored for an age, and so does a read. -/
theorem lookup_after_store_level : ∃ (q q' : Query) (s : Snapshot),
    Compiler.compile ⟨.relational, "?"⟩ (.equal "age" (.num (.int 1))) = .ok q ∧
    Compiler.compile ⟨.relational, "?"⟩ (.equal "level" (.num (.int 1))) = .ok q' ∧
    (storeQueryResult (Codec.json .records) ⟨"app", "users"⟩ q usersOfAgeOne : Plan Json _).Ends
      .never (fun _ => ⟨"r"⟩) .empty (some (.ok true)) s ∧
    (lookupByQuerySignature (Codec.json .records) ⟨"app", "users"⟩ q' : Plan Json _).Ends
      .never (fun _ => ⟨"r"⟩) s (some (.ok (some usersOfAgeOne))) s ∧
    (find {} (Codec.json .records) ⟨"app", "users"⟩ q' { skipIndexLookup := true }).Ends
      .never (fun _ => ⟨"r"⟩) s (some (.ok (some ⟨usersOfAgeOne, .querySignature⟩))) s := by
  obtain ⟨q, q', s, hq, hq', -, -, hstore⟩ := exists_ageQuery_levelQuery
  have hclause : (Assembly.compile (.equal "age" (.num (.int 1)))).clause ⟨.relational, "?"⟩ =
      .ok (.compiled q) := by
    rw [Assembly.clause, hq]
    rfl
  have hclause' : (Assembly.compile (.equal "level" (.num (.int 1)))).clause ⟨.relational, "?"⟩ =
      .ok (.compiled q') := by
    rw [Assembly.clause, hq']
    rfl
  have hkeys : (Assembly.compile (.equal "level" (.num (.int 1)))).resultKey? .relational =
      (Assembly.compile (.equal "age" (.num (.int 1)))).resultKey? .relational := by
    decide +kernel
  have hlookup := ((lookup_after_store hclause hclause' hstore decode_usersOfAgeOne).1
    (some (.ok (some usersOfAgeOne))) s).2 ⟨by rw [if_pos hkeys], rfl⟩
  have hstored := (lookupByQuerySignature_ends_never_iff.1 hlookup).1
  exact ⟨q, q', s, hq, hq', hstore, hlookup,
    find_of_storedResult rfl rfl (Option.some.inj hstored).symm⟩

/-- A stored result can be found by a query for something else. -/
theorem stored_result_answers_other_query : ¬ ∀ {p p' : Predicate} {q q' : Query}
    {value result : Json} {s : Snapshot},
      Compiler.compile ⟨.relational, "?"⟩ p = .ok q →
      Compiler.compile ⟨.relational, "?"⟩ p' = .ok q' →
      (storeQueryResult (Codec.json .records) ⟨"app", "users"⟩ q value : Plan Json _).Ends
        .never (fun _ => ⟨"r"⟩) .empty (some (.ok true)) s →
      (lookupByQuerySignature (Codec.json .records) ⟨"app", "users"⟩ q' : Plan Json _).Ends
        .never (fun _ => ⟨"r"⟩) s (some (.ok (some result))) s →
      q.sql? = q'.sql? ∧ q.parameters = q'.parameters ∧ q.document? = q'.document? := by
  intro hclaim
  obtain ⟨q, q', s, hq, hq', hsql, hsql', hstore⟩ := exists_ageQuery_levelQuery
  obtain ⟨cacheKey, payload, hkey, hpayload, hafter⟩ := storeQueryResult_true hstore
  have hkey' : q'.cacheKey? = some cacheKey := by
    rw [← hkey]
    cases hq
    cases hq'
    decide +kernel
  have hlookup : (lookupByQuerySignature (Codec.json .records) ⟨"app", "users"⟩ q' :
      Plan Json _).Ends .never (fun _ => ⟨"r"⟩) s (some (.ok (some usersOfAgeOne))) s := by
    refine lookupByQuerySignature_ends_never_iff.2 ⟨?_, rfl⟩
    have hstored : storedResult (Codec.json .records) ⟨"app", "users"⟩ q' s.contents =
        .ok (some usersOfAgeOne) := by
      rw [hafter]
      exact (storedResult_update (decode_usersOfAgeOne payload hpayload)).trans
        (by rw [if_pos hkey'])
    rw [hstored]
  obtain ⟨hsame, -⟩ := hclaim hq hq' hstore hlookup
  rw [hsql, hsql'] at hsame
  exact absurd hsame (by decide)

end Cache

end QueryCache
