import QueryCache.Proofs.Cache.Insert
import QueryCache.Proofs.Cache.Lookup
import QueryCache.Proofs.Query.Assembly

/-!
# Finding what was inserted

A record's place in an index is named by the tokens of its values, and a query by equality is named
by the tokens of the values that it asks for. So a query for the values of an index finds the
pointer that an insert has just written there, however the query was assembled.

## Main results

* `Assembly.pointerKey_of_leaves` : where a lookup by equalities looks.
* `Cache.pointerKey_mem_keysOf` : a query for a record's values looks where the record's pointer is.
* `Cache.found_of_insert` : what an insert leaves is found under each of its keys.
* `Cache.insert_then_lookup` : a lookup by the values of an index finds what was inserted.
-/

namespace QueryCache

/-! ### Keys of indexes and of queries -/

/-- A lookup by equalities looks under the tokens of their values. -/
theorem Assembly.pointerKey_of_leaves {c : Compiler} {a : Assembly} {q : Query}
    (h : a.clause c = .ok (.compiled q)) (hne : a.leaves c.target ≠ [])
    (hequal : ∀ leaf ∈ a.leaves c.target, leaf.operator = .equal) (space : KeySpace) :
    q.pointerKey? space = some (space.indexKey (keySeparator.intercalate
      (((a.leaves c.target).map Condition.value).map Json.token))) := by
  obtain ⟨-, -, hvalue, hcacheable⟩ := outcome_of_leaves_ne_nil h hne
  have hall := hcacheable.2 hequal
  rw [Query.cacheValue?] at hvalue
  rw [Query.defaultCacheable] at hall
  rw [Query.pointerKey?]
  cases hsignature : q.signature? with
  | none =>
    rw [hsignature] at hvalue
    cases hvalue
  | some signature =>
    rw [hsignature] at hvalue hall
    have hcacheable : signature.defaultCacheable = true := hall
    have htokens : signature.cacheValue = _ := Option.some.inj hvalue
    simp only [hcacheable, if_true, htokens, List.map_map]
    rfl

namespace Cache

variable {ν σ : Type} [CacheStore σ] [LawfulStore σ] {env env' : Plan.Environment ν}
  {w w₁ : World σ} {config : Config} {codec : Codec Record} {space : KeySpace}
  {definitions : List String} {record : Record} {indexes : List CompositeIndex}
  {index : CompositeIndex} {values : List Json} {c : Compiler} {a : Assembly} {q : Query}

/-- The indexes that definitions declare have fields. -/
theorem fields_ne_nil_of_indexesOf (h : indexesOf config definitions = .ok indexes)
    (hindex : index ∈ indexes) : index.fields ≠ [] := by
  obtain ⟨⟨-, hfit⟩, rfl⟩ := indexesOf_eq_ok_iff.1 h
  obtain ⟨definition, hmem, rfl⟩ := List.mem_map.1 hindex
  exact (hfit definition hmem).1

/-- **A query for a record's values in an index** looks where the record's pointer is. -/
theorem pointerKey_mem_keysOf (hindexes : indexesOf config definitions = .ok indexes)
    (hindex : index ∈ indexes)
    (hvalues : index.fields.mapM (fun field => record.lookup field) = some values)
    (hq : a.clause c = .ok (.compiled q))
    (hequal : ∀ leaf ∈ a.leaves c.target, leaf.operator = .equal)
    (hleaves : (a.leaves c.target).map Condition.value = values) :
    ∃ key ∈ keysOf config space definitions record, q.pointerKey? space = some key := by
  have hne : a.leaves c.target ≠ [] := by
    intro hnil
    obtain ⟨field, rest, hfields⟩ :=
      List.exists_cons_of_ne_nil (fields_ne_nil_of_indexesOf hindexes hindex)
    rw [hnil, List.map_nil] at hleaves
    rw [hfields, List.mapM_cons, ← hleaves] at hvalues
    simp [Option.bind_eq_some_iff] at hvalues
  refine ⟨_, ?_, Assembly.pointerKey_of_leaves hq hne hequal space⟩
  rw [keysOf_of_ok hindexes, mem_pointerKeys]
  exact ⟨index, hindex, values, hvalues, by rw [hleaves]⟩

/-- **What an insert leaves is found** under each of its keys. -/
theorem found_of_insert {mishaps : Mishaps} {ids : Nat → RecordId} {s s' : Snapshot} {id : RecordId}
    (h : (insert config codec space definitions record : Plan ν _).Ends mishaps ids s
      (some (.ok (some id))) s')
    (hcodec : ∀ payload, codec.encode record = .ok payload → codec.decode payload = .ok record)
    (hid : id.payloadKey ∉ keysOf config space definitions record) {key : String}
    (hkey : key ∈ keysOf config space definitions record) :
    found codec s'.contents key = .ok (some record) := by
  obtain ⟨-, -, payload, hpayload, hafter⟩ := insert_some h
  have hne : key ≠ id.payloadKey := fun heq => hid (heq ▸ hkey)
  have hpointer : s'.contents key = some id.toBytes := by
    rw [hafter, Function.update_of_ne hne, Contents.fill_of_mem _ _ hkey]
  have htarget : s'.contents id.payloadKey = some payload := by
    rw [hafter, Function.update_self]
  exact found_eq_some hpointer htarget (hcodec payload hpayload)

/-- **A lookup by the values of an index finds what was inserted.** Let an insert return an
identifier that is not the text of one of the pointers' keys, whatever the store held before. Let
a query, assembled in any way for any target, consist of equalities with the record's values in the
fields of an index, in their order. Then a lookup by this query finds the record, provided that the
store answers and the codec decodes what it encoded. -/
theorem insert_then_lookup {id : RecordId}
    (hinsert : (insert config codec space definitions record).run env w =
      (some (.ok (some id)), w₁))
    (hcodec : ∀ payload, codec.encode record = .ok payload → codec.decode payload = .ok record)
    (hid : id.payloadKey ∉ keysOf config space definitions record)
    (hindexes : indexesOf config definitions = .ok indexes) (hindex : index ∈ indexes)
    (hvalues : index.fields.mapM (fun field => record.lookup field) = some values)
    (hq : a.clause c = .ok (.compiled q))
    (hequal : ∀ leaf ∈ a.leaves c.target, leaf.operator = .equal)
    (hleaves : (a.leaves c.target).map Condition.value = values)
    (hlookup : (lookupByEquality codec space q).Answered env' w₁) :
    ∃ w₂, (lookupByEquality codec space q).run env' w₁ = (some (.ok (some record)), w₂) := by
  obtain ⟨key, hkey, hpointer⟩ := pointerKey_mem_keysOf hindexes hindex hvalues hq hequal hleaves
  have hfound := found_of_insert (Plan.ends_of_run Mishaps.covers_always hinsert) hcodec hid hkey
  obtain ⟨result, w₂, hrun, hends⟩ := hlookup.ends
  obtain ⟨hresult, -⟩ := lookupByEquality_ends_never_iff.1 hends
  rw [foundBy, hpointer] at hresult
  obtain rfl := (Option.some.inj hresult).trans hfound
  exact ⟨w₂, hrun⟩

/-- A user of a team is cached in an empty store, also through an index of two fields that is
declared with blanks. -/
def userInserted : Option (Except Error (Option RecordId)) × World MemoryStore :=
  (insert {} Codec.record ⟨"app", "users"⟩ ["team", " team , id "]
    [("id", .str "7"), ("team", .str "t")]).run oneNewId
      { now := 0, gate := Gate.ofCapacity 1, store := {} }

/-- A query that is put together from a tree in parentheses and another query. -/
def userQuery : Assembly :=
  .add [.group (.compile (.or [.equal "team" (.str "t")])),
    .join .and [.empty, .node (.equal "id" (.str "7"))]]

/-- The query finds the user through the index of two fields. -/
theorem insert_then_lookup_user : ∃ (q : Query) (w₁ w₂ : World MemoryStore),
    userInserted = (some (.ok (some ⟨"r"⟩)), w₁) ∧
    userQuery.clause ⟨.relational, "?"⟩ = .ok (.compiled q) ∧
    (lookupByEquality Codec.record ⟨"app", "users"⟩ q).run oneNewId w₁ =
      (some (.ok (some [("id", .str "7"), ("team", .str "t")])), w₂) := by
  have hinsert : userInserted.1 = some (.ok (some ⟨"r"⟩)) := by rfl
  have hcodec : ∀ payload,
      Codec.record.encode [("id", .str "7"), ("team", .str "t")] = .ok payload →
        Codec.record.decode payload = .ok [("id", .str "7"), ("team", .str "t")] := by
    intro payload hpayload
    cases hpayload
    cbv
  have hpointer : (userInserted.2.guarded {} (.get "app_users_t_7")).1 =
      some (.ok (some (RecordId.toBytes ⟨"r"⟩))) := by
    rfl
  have hpayload : ((userInserted.2.guarded {} (.get "app_users_t_7")).2.guarded {} (.get "r")).1 =
      some (.ok (userInserted.2.contents "r")) := by
    rfl
  obtain ⟨q, hq⟩ : ∃ q, userQuery.clause ⟨.relational, "?"⟩ = .ok (.compiled q) := ⟨_, rfl⟩
  have hkey : q.pointerKey? ⟨"app", "users"⟩ = some "app_users_t_7" := by
    cases hq
    rfl
  have hlookup : (lookupByEquality Codec.record ⟨"app", "users"⟩ q).Answered oneNewId
      userInserted.2 := by
    refine lookupByEquality_answered hkey (Prod.ext hpointer rfl) fun id hid => ?_
    obtain rfl := RecordId.toBytes_injective (Option.some.inj hid)
    exact ⟨_, _, Prod.ext hpayload rfl⟩
  obtain ⟨w₂, hrun⟩ := insert_then_lookup (Prod.ext hinsert rfl) hcodec (by decide +kernel) rfl
    (.tail _ (.head _)) rfl hq (by decide) rfl hlookup
  exact ⟨q, userInserted.2, w₂, Prod.ext hinsert rfl, hq, hrun⟩

end Cache

end QueryCache
