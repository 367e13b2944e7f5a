import QueryCache.Proofs.Cache.History
import QueryCache.Proofs.Cache.QueryResults
import QueryCache.Proofs.Plan.Calls

/-!
# Scopes of keys

The keys of an entity begin with the names of the database and of the entity, each followed by a
separator. If no name has a separator in it, then a key tells both names and what follows them. It
does not tell a pointer from the result of a query: only that what names a result begins with an
operator. If a name has a separator in it, then another scope may have the same keys.

Every operation calls the store under keys of its own scope, and under the identifiers that it mints
or that are under its pointers.

## Main definitions

* `KeySpace.Plain` : scopes whose names have no separator in them.
* `Cache.Operation` : the operations on an entity of a database.
* `Cache.Reaches` : the keys that an operation may call.

## Main results

* `KeySpace.scope_append_inj` : what a key of a scope tells.
* `Cache.Operation.reaches_of_makes` : where operations call the store.
* `Cache.entries_apart` : which entries are kept apart.
-/

namespace QueryCache

/-! ### What a key tells -/

/-- Neither of the names of a scope has a separator in it. -/
def KeySpace.Plain (space : KeySpace) : Prop :=
  '_' ∉ space.database.toList ∧ '_' ∉ space.entity.toList

instance (space : KeySpace) : Decidable space.Plain := inferInstanceAs (Decidable (_ ∧ _))

/-- **A key of a scope without separators in its names** tells the scope, and what follows it. -/
theorem KeySpace.scope_append_inj {space space' : KeySpace} (h : space.Plain) (h' : space'.Plain)
    {x y : String} (hkeys : space.scope ++ x = space'.scope ++ y) : space = space' ∧ x = y := by
  have hlists := congrArg String.toList hkeys
  simp only [scope, String.toList_append, List.append_assoc] at hlists
  obtain ⟨hdatabase, htail⟩ := append_mark_inj _ _ h.1 h'.1 hlists
  obtain ⟨hentity, hrest⟩ := append_mark_inj _ _ h.2 h'.2 htail
  obtain ⟨database, entity⟩ := space
  obtain ⟨database', entity'⟩ := space'
  obtain rfl : database = database' := String.toList_inj.1 hdatabase
  obtain rfl : entity = entity' := String.toList_inj.1 hentity
  exact ⟨rfl, String.toList_inj.1 hrest⟩

/-- What names the result of a query begins with an operator. -/
theorem Assembly.exists_operator_of_resultKey? {t : Target} {a : Assembly} {cacheKey : String}
    (h : a.resultKey? t = some cacheKey) :
    ∃ operator : Operator, ∃ rest, cacheKey = operator.name ++ keySeparator ++ rest := by
  rw [resultKey?] at h
  split at h
  · cases h
  next first rest _ =>
    cases h
    rcases rest with _ | ⟨next, rest⟩
    · exact ⟨first.operator, first.value.token, by simp [Condition.keyPart]⟩
    · refine ⟨first.operator, first.value.token ++ keySeparator ++
        keySeparator.intercalate ((next :: rest).map Condition.keyPart), ?_⟩
      simp [Condition.keyPart, String.append_assoc]

namespace Cache

variable {ν α : Type} {space : KeySpace} {mishaps : Mishaps} {ids : Nat → RecordId}
  {s s' : Snapshot} {c : Call}

/-- The operations on an entity of a database, each with the type of its results. -/
inductive Operation (ν : Type) : Type → Type 1
  | insert (config : Config) (codec : Codec Record) (definitions : List String) (record : Record) :
    Operation ν (Option RecordId)
  | update (config : Config) (codec : Codec Record) (definitions : List String)
    (old new : Record) : Operation ν (Option RecordId)
  | storeQueryResult {α : Type} (codec : Codec α) (query : Query) (value : α) : Operation ν Bool
  | invalidateQueryResult (query : Query) : Operation ν Bool
  | lookupByEquality {α : Type} (codec : Codec α) (query : Query) : Operation ν (Option α)
  | lookupByQuerySignature {α : Type} (codec : Codec α) (query : Query) : Operation ν (Option α)
  | find (config : Config) (codec : Codec ν) (query : Query) (options : ReadOptions) :
    Operation ν (Option (CacheRead ν))

namespace Operation

/-- What an operation does in a scope. -/
def plan (space : KeySpace) : {α : Type} → Operation ν α → Plan ν α
  | _, insert config codec definitions record => Cache.insert config codec space definitions record
  | _, update config codec definitions old new =>
    Cache.update config codec space definitions old new
  | _, storeQueryResult codec query value => Cache.storeQueryResult codec space query value
  | _, invalidateQueryResult query => Cache.invalidateQueryResult space query
  | _, lookupByEquality codec query => Cache.lookupByEquality codec space query
  | _, lookupByQuerySignature codec query => Cache.lookupByQuerySignature codec space query
  | _, find config codec query options => Cache.find config codec space query options

/-- The keys under which an operation reads pointers. -/
def pointers (space : KeySpace) : {α : Type} → Operation ν α → List String
  | _, update config _ definitions old _ => keysOf config space definitions old
  | _, lookupByEquality _ query => (query.pointerKey? space).toList
  | _, find _ _ query _ => (query.pointerKey? space).toList
  | _, _ => []

end Operation

/-! ### Where operations call the store -/

/-- A key of a scope, or the identifier that is minted next or named by one of some pointers. -/
def Reaches (space : KeySpace) (pointers : List String) (ids : Nat → RecordId) (s : Snapshot)
    (key : String) : Prop :=
  (∃ x, key = space.scope ++ x) ∨ ∃ id : RecordId, key = id.payloadKey ∧
    (id = ids s.minted ∨ ∃ pointer ∈ pointers, s.contents pointer = some id.toBytes)

theorem exists_scope_of_mem_keysOf {config : Config} {definitions : List String} {record : Record}
    {key : String} (h : key ∈ keysOf config space definitions record) :
    ∃ x, key = space.scope ++ x := by
  obtain ⟨-, -, -, values, -, rfl⟩ := mem_keysOf.1 h
  exact ⟨_, rfl⟩

theorem exists_scope_of_pointerKey? {query : Query} {key : String}
    (h : query.pointerKey? space = some key) : ∃ x, key = space.scope ++ x := by
  rw [Query.pointerKey?] at h
  split at h
  · cases h
  · split at h
    · cases h
      exact ⟨_, rfl⟩
    · cases h

/-- Where the writes of pointers and payload call the store. -/
theorem key_of_makes_setAll_set {keys : List String} {id : RecordId} {payload : ByteArray}
    (h : ((Plan.setAll keys id.toBytes >>= fun _ => Plan.set id.payloadKey payload >>= fun _ =>
      pure (some id)) : Plan ν _).Makes mishaps ids s c) :
    c.key ∈ keys ∨ c.key = id.payloadKey := by
  rcases Plan.Makes.of_batch_bind h with hmem | ⟨order, h⟩
  · obtain ⟨key, hkey, rfl⟩ := List.mem_map.1 hmem
    exact .inl hkey
  · rcases Plan.Makes.of_set_bind h with rfl | h
    · exact .inr rfl
    · exact (Plan.not_makes_done h).elim

theorem key_of_makes_readPointers {keys : List String}
    (h : (readPointers keys : Plan ν _).Makes mishaps ids s c) : c.key ∈ keys := by
  induction keys with
  | nil => exact (Plan.not_makes_done h).elim
  | cons key rest ih =>
    rcases Plan.Makes.of_get_bind h with rfl | h
    · exact List.mem_cons_self
    refine List.mem_cons_of_mem _ ?_
    cases hkey : s.contents key with
    | none =>
      rw [hkey] at h
      exact ih h
    | some bytes =>
      rw [hkey] at h
      obtain ⟨id, -, h⟩ := Plan.Makes.of_lift_bind h
      rcases Plan.Makes.of_bind h with h | ⟨others, s₁, -, h⟩
      · exact ih h
      · exact (Plan.not_makes_done h).elim

/-- Where an insert calls the store. -/
theorem reaches_of_makes_insert {config : Config} {codec : Codec Record}
    {definitions : List String} {record : Record}
    (h : (insert config codec space definitions record : Plan ν _).Makes mishaps ids s c) :
    Reaches space [] ids s c.key := by
  rw [insert] at h
  split at h
  · exact (Plan.not_makes_done h).elim
  obtain ⟨indexes, hindexes, h⟩ := Plan.Makes.of_lift_bind h
  dsimp only at h
  split at h
  · exact (Plan.not_makes_done h).elim
  obtain ⟨payload, -, h⟩ := Plan.Makes.of_lift_bind h
  rcases key_of_makes_setAll_set (Plan.Makes.of_newId_bind h) with hmem | hpayload
  · rw [← keysOf_of_ok hindexes] at hmem
    exact .inl (exists_scope_of_mem_keysOf hmem)
  · exact .inr ⟨_, hpayload, .inl rfl⟩

/-- Where the replacement of pointers and payload calls the store. -/
theorem key_of_makes_replace {codec : Codec Record} {oldKeys newKeys : List String}
    {current : List (String × RecordId)} {id : RecordId} {record : Record}
    (h : (replace codec oldKeys newKeys current id record : Plan ν _).Makes mishaps ids s c) :
    c.key ∈ oldKeys ++ newKeys ∨ c.key = id.payloadKey := by
  obtain ⟨payload, -, h⟩ := Plan.Makes.of_lift_bind h
  rcases Plan.Makes.of_batch_bind h with hmem | ⟨order, h⟩
  · obtain ⟨key, hkey, rfl⟩ := List.mem_map.1 hmem
    exact .inl (List.mem_append_left _ (List.mem_of_mem_filter hkey))
  · refine (key_of_makes_setAll_set h).imp_left fun hmem => ?_
    exact List.mem_append_right _ (List.mem_of_mem_filter hmem)

/-- Where an update calls the store. -/
theorem reaches_of_makes_update {config : Config} {codec : Codec Record}
    {definitions : List String} {old new : Record}
    (h : (update config codec space definitions old new : Plan ν _).Makes mishaps ids s c) :
    Reaches space (keysOf config space definitions old) ids s c.key := by
  rw [update] at h
  split at h
  · exact (Plan.not_makes_done h).elim
  obtain ⟨indexes, hindexes, h⟩ := Plan.Makes.of_lift_bind h
  dsimp only at h
  rw [← keysOf_of_ok hindexes, ← keysOf_of_ok hindexes] at h
  rcases Plan.Makes.of_bind h with h | ⟨current, s₁, hread, h⟩
  · exact .inl (exists_scope_of_mem_keysOf (key_of_makes_readPointers h))
  obtain ⟨rfl, hcurrent⟩ := readPointers_ends hread
  have hreplace {id : RecordId} {current : List (String × RecordId)} {t : Snapshot}
      (h : (replace codec (keysOf config space definitions old)
        (keysOf config space definitions new) current id new : Plan ν _).Makes mishaps ids t c)
      (hid : id = ids s₁.minted ∨
        ∃ pointer ∈ keysOf config space definitions old, s₁.contents pointer = some id.toBytes) :
      Reaches space (keysOf config space definitions old) ids s₁ c.key := by
    rcases key_of_makes_replace h with hmem | hpayload
    · rcases List.mem_append.1 hmem with hold | hnew
      · exact .inl (exists_scope_of_mem_keysOf hold)
      · exact .inl (exists_scope_of_mem_keysOf hnew)
    · exact .inr ⟨id, hpayload, hid⟩
  cases current with
  | cons first others =>
    obtain ⟨hfind, hfirst⟩ := (hcurrent _ rfl).find?_of_cons
    exact hreplace h (.inr ⟨first.1, List.mem_of_find?_eq_some hfind, hfirst⟩)
  | nil =>
    split at h
    next heq => cases heq
    · exact (Plan.not_makes_done h).elim
    · exact hreplace (Plan.Makes.of_newId_bind h) (.inl rfl)

/-- Where a lookup by equality calls the store. -/
theorem reaches_of_makes_lookupByEquality {codec : Codec α} {query : Query}
    (h : (lookupByEquality codec space query : Plan ν _).Makes mishaps ids s c) :
    Reaches space (query.pointerKey? space).toList ids s c.key := by
  rw [lookupByEquality_eq] at h
  cases hkey : query.pointerKey? space with
  | none =>
    rw [hkey] at h
    exact (Plan.not_makes_done h).elim
  | some key =>
    rw [hkey] at h
    rcases Plan.Makes.of_get_bind h with rfl | h
    · exact .inl (exists_scope_of_pointerKey? hkey)
    cases hpointer : s.contents key with
    | none =>
      rw [hpointer] at h
      exact (Plan.not_makes_done h).elim
    | some bytes =>
      rw [hpointer] at h
      obtain ⟨id, htarget, h⟩ := Plan.Makes.of_lift_bind h
      rw [← toBytes_of_pointerTarget htarget] at hpointer
      rcases Plan.Makes.of_get_bind h with rfl | h
      · exact .inr ⟨id, rfl, .inr ⟨key, List.mem_singleton_self key, hpointer⟩⟩
      split at h
      · exact (Plan.not_makes_done h).elim
      · obtain ⟨value, -, h⟩ := Plan.Makes.of_lift_bind h
        exact (Plan.not_makes_done h).elim

/-- Where the operations on the result of a query call the store. -/
theorem key_of_makes_storeQueryResult {codec : Codec α} {query : Query} {value : α}
    (h : (storeQueryResult codec space query value : Plan ν _).Makes mishaps ids s c) :
    ∃ cacheKey, query.cacheKey? = some cacheKey ∧ c.key = space.queryKey cacheKey := by
  rw [storeQueryResult] at h
  split at h
  · exact (Plan.not_makes_done h).elim
  next cacheKey hkey =>
    obtain ⟨payload, -, h⟩ := Plan.Makes.of_lift_bind h
    rcases Plan.Makes.of_set_bind h with rfl | h
    · exact ⟨cacheKey, hkey, rfl⟩
    · exact (Plan.not_makes_done h).elim

theorem key_of_makes_invalidateQueryResult {query : Query}
    (h : (invalidateQueryResult space query : Plan ν _).Makes mishaps ids s c) :
    ∃ cacheKey, query.cacheKey? = some cacheKey ∧ c.key = space.queryKey cacheKey := by
  rw [invalidateQueryResult] at h
  split at h
  · exact (Plan.not_makes_done h).elim
  next cacheKey hkey =>
    cases h with
    | call => exact ⟨cacheKey, hkey, rfl⟩
    | answered rest => exact (Plan.not_makes_lift rest).elim
    | refused mishap rest => exact (Plan.not_makes_lift rest).elim

theorem key_of_makes_lookupByQuerySignature {codec : Codec α} {query : Query}
    (h : (lookupByQuerySignature codec space query : Plan ν _).Makes mishaps ids s c) :
    ∃ cacheKey, query.cacheKey? = some cacheKey ∧ c.key = space.queryKey cacheKey := by
  rw [lookupByQuerySignature] at h
  split at h
  · exact (Plan.not_makes_done h).elim
  next cacheKey hkey =>
    rcases Plan.Makes.of_get_bind h with rfl | h
    · exact ⟨cacheKey, hkey, rfl⟩
    split at h
    · exact (Plan.not_makes_done h).elim
    · obtain ⟨value, -, h⟩ := Plan.Makes.of_lift_bind h
      exact (Plan.not_makes_done h).elim

theorem makes_of_makes_absorbing {config : Config} {missing : α} {step : Plan ν α}
    (h : (absorbing config missing step).Makes mishaps ids s c) : step.Makes mishaps ids s c := by
  rcases Plan.Makes.of_recover h with hstep | ⟨result, s₁, -, h⟩
  · exact hstep
  · cases result with
    | ok a => exact (Plan.not_makes_done h).elim
    | error e =>
      dsimp only at h
      split at h
      · exact (Plan.not_makes_done h).elim
      · exact (Plan.not_makes_done h).elim

theorem not_makes_fetchPrimary {query : Query} :
    ¬ (Plan.fetchPrimary query : Plan ν _).Makes mishaps ids s c := by
  intro h
  cases h with
  | fetch reply rest => exact Plan.not_makes_done rest

theorem key_of_makes_findInPrimary {config : Config} {codec : Codec ν} {query : Query}
    {options : ReadOptions}
    (h : (findInPrimary config codec space query options).Makes mishaps ids s c) :
    ∃ cacheKey, query.cacheKey? = some cacheKey ∧ c.key = space.queryKey cacheKey := by
  rcases Plan.Makes.of_bind h with h | ⟨fetched, s₁, -, h⟩
  · exact (not_makes_fetchPrimary h).elim
  cases fetched with
  | none => exact (Plan.not_makes_done h).elim
  | some value =>
    dsimp only at h
    split at h
    · rcases Plan.Makes.of_bind h with h | ⟨_, s₂, -, h⟩
      · exact key_of_makes_storeQueryResult (makes_of_makes_absorbing h)
      · exact (Plan.not_makes_done h).elim
    · exact (Plan.not_makes_done h).elim

/-- Where a read calls the store. -/
theorem reaches_of_makes_find {config : Config} {codec : Codec ν} {query : Query}
    {options : ReadOptions}
    (h : (find config codec space query options).Makes mishaps ids s c) :
    Reaches space (query.pointerKey? space).toList ids s c.key := by
  have hresult (hkey : ∃ cacheKey, query.cacheKey? = some cacheKey ∧
      c.key = space.queryKey cacheKey) :
      Reaches space (query.pointerKey? space).toList ids s c.key := by
    obtain ⟨cacheKey, -, hkey⟩ := hkey
    exact .inl ⟨cacheKey, hkey⟩
  rw [find_eq] at h
  split at h
  · rcases Plan.Makes.of_bind h with h | ⟨_, _, -, h⟩
    · exact (not_makes_fetchPrimary h).elim
    · exact (Plan.not_makes_done h).elim
  rcases Plan.Makes.of_bind h with h | ⟨byPointer, s₁, -, h⟩
  · split at h
    · exact reaches_of_makes_lookupByEquality (makes_of_makes_absorbing h)
    · exact (Plan.not_makes_done h).elim
  cases byPointer with
  | some value => exact (Plan.not_makes_done h).elim
  | none =>
    rcases Plan.Makes.of_bind h with h | ⟨stored, s₂, -, h⟩
    · exact hresult (key_of_makes_lookupByQuerySignature (makes_of_makes_absorbing h))
    cases stored with
    | some value => exact (Plan.not_makes_done h).elim
    | none => exact hresult (key_of_makes_findInPrimary h)

/-- **Where operations call the store**: under keys of their scope, and under the identifier that is
minted next or one that is under a pointer. -/
theorem Operation.reaches_of_makes (operation : Operation ν α)
    (h : (operation.plan space).Makes mishaps ids s c) :
    Reaches space (operation.pointers space) ids s c.key := by
  have hresult {query : Query} (hkey : ∃ cacheKey, query.cacheKey? = some cacheKey ∧
      c.key = space.queryKey cacheKey) : Reaches space [] ids s c.key := by
    obtain ⟨cacheKey, -, hkey⟩ := hkey
    exact .inl ⟨cacheKey, hkey⟩
  cases operation with
  | insert config codec definitions record => exact reaches_of_makes_insert h
  | update config codec definitions old new => exact reaches_of_makes_update h
  | storeQueryResult codec query value => exact hresult (key_of_makes_storeQueryResult h)
  | invalidateQueryResult query => exact hresult (key_of_makes_invalidateQueryResult h)
  | lookupByEquality codec query => exact reaches_of_makes_lookupByEquality h
  | lookupByQuerySignature codec query => exact hresult (key_of_makes_lookupByQuerySignature h)
  | find config codec query options => exact reaches_of_makes_find h

/-! ### Entries of other kinds and scopes -/

/-- The identifiers that are minted, and those under some pointers, have no separator. -/
def PlainIds (ids : Nat → RecordId) (pointers : List String) (m : Contents) : Prop :=
  (∀ n, '_' ∉ (ids n).text.toList) ∧
    ∀ pointer ∈ pointers, ∀ id : RecordId, m pointer = some id.toBytes → '_' ∉ id.text.toList

/-- An operation does not call the store under keys of another scope. -/
theorem Operation.ne_of_makes {space' : KeySpace} (operation : Operation ν α)
    (hspace : space.Plain) (hspace' : space'.Plain) (hne : space ≠ space')
    (hids : PlainIds ids (operation.pointers space) s.contents)
    (h : (operation.plan space).Makes mishaps ids s c) (x : String) :
    c.key ≠ space'.scope ++ x := by
  intro hkey
  rcases operation.reaches_of_makes h with ⟨y, hown⟩ | ⟨id, hpayload, hid⟩
  · exact hne (KeySpace.scope_append_inj hspace hspace' (hown.symm.trans hkey)).1
  · have hfree : '_' ∉ id.text.toList := by
      rcases hid with rfl | ⟨pointer, hmem, hpointer⟩
      · exact hids.1 _
      · exact hids.2 pointer hmem id hpointer
    have htext : id.text = space'.indexKey x := hpayload.symm.trans hkey
    rw [htext] at hfree
    exact hfree (space'.separator_mem_indexKey x)

/-- **Which entries are kept apart.** Take scopes whose names have no separator in them. Their keys
agree only if the scopes agree and what follows them does, and a pointer and the result of an
assembled query have the same key only if, moreover, the values of the pointer begin with an
operator and a separator.

So no operation in one scope calls the store under a key of the other, provided that the identifiers
it mints or finds under its pointers have no separator. It changes nothing there, and ends alike
whatever is there. Storing the result of an assembled query changes no pointer of the same scope
whose values do not begin with an operator and a separator. -/
theorem entries_apart {ν : Type} {space space' : KeySpace} (hspace : space.Plain)
    (hspace' : space'.Plain) :
    (∀ {x y : String}, (space.indexKey x = space'.indexKey y → space = space' ∧ x = y) ∧
      (space.queryKey x = space'.queryKey y → space = space' ∧ x = y) ∧
      ∀ {compiler : Compiler} {a : Assembly} {q : Query},
        a.clause compiler = .ok (.compiled q) → q.cacheKey? = some y →
          space.indexKey x = space'.queryKey y → space = space' ∧ x = y ∧
            ∃ (operator : Operator) (rest : String), x = operator.name ++ "_" ++ rest) ∧
    (space ≠ space' → ∀ {α : Type} {mishaps : Mishaps} {ids : Nat → RecordId} {s : Snapshot}
        (operation : Operation ν α), PlainIds ids (operation.pointers space) s.contents →
      (∀ c, (operation.plan space).Makes mishaps ids s c → ∀ x, c.key ≠ space'.scope ++ x) ∧
      ∀ {o s'}, (operation.plan space).Ends mishaps ids s o s' →
        (∀ x, s'.contents (space'.scope ++ x) = s.contents (space'.scope ++ x)) ∧
        ∀ {t : Snapshot}, t.minted = s.minted →
          (∀ key, (∀ x, key ≠ space'.scope ++ x) → t.contents key = s.contents key) →
            ∃ t', (operation.plan space).Ends mishaps ids t o t' ∧
              ∀ key, (∀ x, key ≠ space'.scope ++ x) → t'.contents key = s'.contents key) ∧
    ∀ {α : Type} {mishaps : Mishaps} {ids : Nat → RecordId} {s s' : Snapshot}
      {compiler : Compiler} {a : Assembly} {q : Query} {codec : Codec α} {value : α}
      {o : Option (Except Error Bool)} {values : String},
      a.clause compiler = .ok (.compiled q) →
      (storeQueryResult codec space q value : Plan ν _).Ends mishaps ids s o s' →
      (∀ (operator : Operator) (rest : String), values ≠ operator.name ++ "_" ++ rest) →
        s'.contents (space.indexKey values) = s.contents (space.indexKey values) := by
  refine ⟨fun {x y} => ⟨fun h => ?_, fun h => ?_, ?_⟩,
    fun hne {α mishaps ids s} operation hids => ?_, ?_⟩
  · exact KeySpace.scope_append_inj hspace hspace' h
  · exact KeySpace.scope_append_inj hspace hspace' h
  · intro compiler a q hq hkey h
    obtain ⟨hsame, rfl⟩ := KeySpace.scope_append_inj hspace hspace' h
    rw [Assembly.cacheKey?_of_clause hq] at hkey
    exact ⟨hsame, rfl, Assembly.exists_operator_of_resultKey? hkey⟩
  · have hcalls (c : Call) (hc : (operation.plan space).Makes mishaps ids s c) (x : String) :
        c.key ≠ space'.scope ++ x :=
      operation.ne_of_makes hspace hspace' hne hids hc x
    refine ⟨hcalls, fun {o s'} hends => ⟨fun x => ?_, fun {t} hminted hagree => ?_⟩⟩
    · exact hends.eq_of_notCalled fun c hc => hcalls c hc x
    · obtain ⟨t', hends', -, hsame⟩ :=
        hends.exists_of_agree hminted fun c hc => hagree c.key (hcalls c hc)
      exact ⟨t', hends', fun key hkey => hsame key (hagree key hkey)⟩
  · intro α mishaps ids s s' compiler a q codec value o values hq hends hvalues
    refine hends.eq_of_notCalled fun c hc heq => ?_
    obtain ⟨cacheKey, hkey, hcall⟩ := key_of_makes_storeQueryResult hc
    have hsame : cacheKey = values := space.queryKey_injective (hcall.symm.trans heq)
    rw [Assembly.cacheKey?_of_clause hq] at hkey
    obtain ⟨operator, rest, hoperator⟩ := Assembly.exists_operator_of_resultKey? hkey
    exact hvalues operator rest (hsame.symm.trans hoperator)

/-- A store that holds a pointer to an order. -/
def orderStored : World MemoryStore where
  now := 0
  gate := Gate.ofCapacity 1
  store := { table := { entries := [("app_orders_7", RecordId.toBytes ⟨"o"⟩)] } }

/-- A user is cached in it. -/
def userStored : Option (Except Error (Option RecordId)) × World MemoryStore :=
  ((Operation.insert {} Codec.record ["id"] [("id", .str "7")]).plan ⟨"app", "users"⟩ :
    Plan Empty _).run growingIds orderStored

/-- Caching a user leaves the pointer to the order. -/
theorem entries_apart_orders :
    userStored.1 = some (.ok (some ⟨"r"⟩)) ∧
      userStored.2.contents "app_users_7" = some (RecordId.toBytes ⟨"r"⟩) ∧
      userStored.2.contents "app_orders_7" = some (RecordId.toBytes ⟨"o"⟩) := by
  have hresult : userStored.1 = some (.ok (some ⟨"r"⟩)) := by rfl
  have hends : ((Operation.insert {} Codec.record ["id"] [("id", .str "7")]).plan
      ⟨"app", "users"⟩ : Plan Empty _).Ends .always growingIds.ids orderStored.snapshot
        (some (.ok (some ⟨"r"⟩))) userStored.2.snapshot :=
    Plan.ends_of_run Mishaps.covers_always (Prod.ext hresult rfl)
  have hids : PlainIds growingIds.ids [] orderStored.snapshot.contents :=
    ⟨fun n => by simp [growingIds], fun pointer hpointer => nomatch hpointer⟩
  have husers : KeySpace.Plain ⟨"app", "users"⟩ := by decide
  have horders : KeySpace.Plain ⟨"app", "orders"⟩ := by decide
  have hne : (⟨"app", "users"⟩ : KeySpace) ≠ ⟨"app", "orders"⟩ := by decide
  obtain ⟨-, happart⟩ := (entries_apart husers horders).2.1 hne
    (.insert {} Codec.record ["id"] [("id", .str "7")] : Operation Empty _) hids
  exact ⟨hresult, by rfl, ((happart hends).1 "7").trans rfl⟩

/-- Records in different scopes can have the same key, and so can a record and a query's result in
one scope. -/
theorem scopes_share_keys :
    (¬ ∀ {space space' : KeySpace} {index : CompositeIndex} {record record' : Record}
      {x y : String}, index.valuesKey? record = some x → index.valuesKey? record' = some y →
        space.indexKey x = space'.indexKey y → space = space' ∧ x = y) ∧
    ¬ ∀ {space : KeySpace} {index : CompositeIndex} {record : Record} {x y : String}
      {p : Predicate} {q : Query}, index.valuesKey? record = some x →
        Compiler.compile ⟨.relational, "?"⟩ p = .ok q → q.cacheKey? = some y →
          space.indexKey x ≠ space.queryKey y := by
  refine ⟨fun hclaim => ?_, fun hclaim => ?_⟩
  · have hvalues : CompositeIndex.valuesKey? ⟨"id", ["id"]⟩ [("id", .str "7")] = some "7" := by rfl
    have hkeys : KeySpace.indexKey ⟨"a_b", "c"⟩ "7" = KeySpace.indexKey ⟨"a", "b_c"⟩ "7" := by rfl
    exact absurd (hclaim hvalues hvalues hkeys).1 (by decide)
  · have hvalues : CompositeIndex.valuesKey? ⟨"id", ["id"]⟩ [("id", .str "EQUAL_7")] =
        some "EQUAL_7" := by
      rfl
    obtain ⟨q, hq, hkey⟩ : ∃ q : Query,
        Compiler.compile ⟨.relational, "?"⟩ (.equal "id" (.str "7")) = .ok q ∧
          q.cacheKey? = some "EQUAL_7" :=
      ⟨_, rfl, rfl⟩
    have hkeys : KeySpace.indexKey ⟨"app", "users"⟩ "EQUAL_7" =
        KeySpace.queryKey ⟨"app", "users"⟩ "EQUAL_7" := by
      rfl
    exact hclaim hvalues hq hkey hkeys

end Cache

end QueryCache
