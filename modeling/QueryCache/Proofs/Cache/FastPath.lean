import QueryCache.Proofs.Cache.History
import QueryCache.Proofs.Cache.RoundTrip
import QueryCache.Proofs.Json.Printer

/-!
# What a lookup by equality finds

A pointer is found by the tokens of the values that a query asks for. A record that is found through
it has been inserted, and its own tokens in the fields of the index come to the same text. They are
the same tokens if one side has no separator in them, or if there is only one. Tokens do not tell a
string from a value whose text it is; but for that, the record has the values that are asked for.

## Main definitions

* `Cache.Change.keys` : the keys of the pointers to a record that is cached.
* `Cache.Filed` : what holds of the entries of a store after insertions.

## Main results

* `Cache.History.filed` : what insertions leave, however they end.
* `Cache.Filed.of_found` : what is found has been inserted, and the pointer is one of its own.
* `Cache.lookup_values` : what values a record has that is found.
-/

namespace QueryCache

namespace Cache

variable {ν : Type} {config : Config} {codec : Codec Record} {space : KeySpace}
  {definitions : List String} {definition : String} {record : Record} {ids : Nat → RecordId}
  {mishaps : Mishaps} {s s' : Snapshot} {o : Option (Except Error (Option RecordId))}

/-! ### One definition -/

/-- A pointer under one definition is under the tokens of the values in its fields. -/
theorem exists_values_of_mem_keysOf {key : String}
    (h : key ∈ keysOf config space [definition] record) :
    ∃ values, (CompositeIndex.fieldNames definition).mapM (fun field => record.lookup field) =
        some values ∧
      key = space.indexKey (keySeparator.intercalate (values.map Json.token)) := by
  obtain ⟨-, _, hmem, values, hvalues, hkey⟩ := mem_keysOf.1 h
  rw [List.mem_singleton.1 hmem] at hvalues
  exact ⟨values, hvalues, hkey⟩

/-! ### Insertions -/

/-- The keys of the pointers to the record that is to be cached. -/
def Change.keys : Change → List String
  | .insert config space definitions record => keysOf config space definitions record
  | .update config space definitions _ new => keysOf config space definitions new

/-- An insert that changes something mints an identifier. -/
theorem insert_mints
    (h : (insert config codec space definitions record : Plan ν _).Ends mishaps ids s o s') :
    s'.contents = s.contents ∨ s.minted < s'.minted := by
  rw [insert] at h
  split at h
  · obtain ⟨-, rfl⟩ := Plan.ends_pure_iff.1 h
    exact .inl rfl
  rcases Plan.ends_lift_bind_iff.1 h with ⟨indexes, -, h⟩ | ⟨e, -, -, rfl⟩
  swap
  · exact .inl rfl
  dsimp only at h
  split at h
  · obtain ⟨-, rfl⟩ := Plan.ends_pure_iff.1 h
    exact .inl rfl
  rcases Plan.ends_lift_bind_iff.1 h with ⟨payload, -, h⟩ | ⟨e, -, -, rfl⟩
  swap
  · exact .inl rfl
  exact .inr (Plan.ends_newId_bind_iff.1 h).minted_le

/-- Where insertions have put things. Pointers name identifiers that have been minted, and payloads
are under them. If a pointer leads to a payload then this is the payload of a record that was to be
inserted under this pointer. -/
structure Filed (codec : Codec Record) (ids : Nat → RecordId) (log : Log) (s : Snapshot) :
    Prop where
  pointer : ∀ {key bytes}, s.contents key = some bytes → '_' ∈ key.toList →
    ∃ n < s.minted, bytes = (ids n).toBytes
  payload : ∀ {key bytes}, s.contents key = some bytes → '_' ∉ key.toList →
    ∃ n < s.minted, key = (ids n).payloadKey
  leads : ∀ {key id payload}, s.contents key = some (RecordId.toBytes id) → '_' ∈ key.toList →
    s.contents id.payloadKey = some payload →
      ∃ entry ∈ log, key ∈ entry.1.keys ∧ codec.encode entry.1.record = .ok payload

namespace Filed

variable {log : Log} {entry : Change × Option (Except Error (Option RecordId))}

theorem empty : Filed codec ids [] .empty where
  pointer h := nomatch h
  payload h := nomatch h
  leads h := nomatch h

/-- A change that changes nothing. -/
theorem cons (h : Filed codec ids log s) (hsame : s'.contents = s.contents)
    (hminted : s.minted ≤ s'.minted) : Filed codec ids (entry :: log) s' where
  pointer hkey hmem := by
    rw [hsame] at hkey
    obtain ⟨n, hn, hbytes⟩ := h.pointer hkey hmem
    exact ⟨n, hn.trans_le hminted, hbytes⟩
  payload hkey hnot := by
    rw [hsame] at hkey
    obtain ⟨n, hn, hid⟩ := h.payload hkey hnot
    exact ⟨n, hn.trans_le hminted, hid⟩
  leads hkey hmem hpayload := by
    rw [hsame] at hkey hpayload
    obtain ⟨entry, hentry, hfiled⟩ := h.leads hkey hmem hpayload
    exact ⟨entry, .tail _ hentry, hfiled⟩

/-- Pointers under a record's keys and its payload, under an identifier that has been minted for
them. Some of them may be missing. -/
theorem write (h : Filed codec ids log s) (hids : Function.Injective ids) {payload : ByteArray}
    (hminted : s.minted < s'.minted) (hencode : codec.encode entry.1.record = .ok payload)
    (hpointer : ∀ key, '_' ∈ key.toList → s'.contents key = s.contents key ∨
      key ∈ entry.1.keys ∧ s'.contents key = some (ids s.minted).toBytes)
    (hpayload : ∀ key, '_' ∉ key.toList → s'.contents key = s.contents key ∨
      key = (ids s.minted).payloadKey ∧ s'.contents key = some payload)
    (hseparator : ∀ n, '_' ∉ (ids n).text.toList) : Filed codec ids (entry :: log) s' := by
  have hfresh {n : Nat} (hn : n < s.minted) : (ids n).payloadKey ≠ (ids s.minted).payloadKey :=
    fun heq => hn.ne (hids (congrArg RecordId.mk heq))
  refine ⟨fun {key bytes} hkey hmem => ?_, fun {key bytes} hkey hnot => ?_,
    fun {key id stored} hkey hmem hstored => ?_⟩
  · rcases hpointer key hmem with hsame | ⟨-, hnew⟩
    · obtain ⟨n, hn, hbytes⟩ := h.pointer (hsame ▸ hkey) hmem
      exact ⟨n, hn.trans hminted, hbytes⟩
    · exact ⟨s.minted, hminted, Option.some.inj (hkey.symm.trans hnew)⟩
  · rcases hpayload key hnot with hsame | ⟨hid, -⟩
    · obtain ⟨n, hn, hid⟩ := h.payload (hsame ▸ hkey) hnot
      exact ⟨n, hn.trans hminted, hid⟩
    · exact ⟨s.minted, hminted, hid⟩
  · rcases hpointer key hmem with hsame | ⟨hin, hnew⟩
    · -- The pointer was there before, so it does not name the new identifier.
      rw [hsame] at hkey
      obtain ⟨n, hn, hbytes⟩ := h.pointer hkey hmem
      obtain rfl := RecordId.toBytes_injective hbytes
      rcases hpayload _ (hseparator n) with hsame | ⟨hid, -⟩
      · obtain ⟨entry, hentry, hfiled⟩ := h.leads hkey hmem (hsame ▸ hstored)
        exact ⟨entry, .tail _ hentry, hfiled⟩
      · exact (hfresh hn hid).elim
    · -- The pointer is new, and before it there was no payload under the new identifier.
      obtain rfl := RecordId.toBytes_injective (Option.some.inj (hkey.symm.trans hnew))
      rcases hpayload _ (hseparator _) with hsame | ⟨-, hnew⟩
      · obtain ⟨n, hn, hid⟩ := h.payload (hsame ▸ hstored) (hseparator _)
        exact (hfresh hn hid.symm).elim
      · obtain rfl := Option.some.inj (hnew.symm.trans hstored)
        exact ⟨entry, .head _, hin, hencode⟩

end Filed

/-- What the writes of an insert change. -/
theorem WritesEnd.of_insert {before after : Contents} {keys : List String} {id : RecordId}
    {payload : ByteArray} (h : WritesEnd mishaps before [] keys id payload o after)
    (hkeys : ∀ key ∈ keys, '_' ∈ key.toList) (hid : '_' ∉ id.text.toList) (key : String) :
    ('_' ∈ key.toList → after key = before key ∨ key ∈ keys ∧ after key = some id.toBytes) ∧
      ('_' ∉ key.toList → after key = before key ∨
        key = id.payloadKey ∧ after key = some payload) := by
  have hfill {written : List String} (hsub : written ⊆ keys) :
      ('_' ∈ key.toList → before.fill written (some id.toBytes) key = before key ∨
        key ∈ keys ∧ before.fill written (some id.toBytes) key = some id.toBytes) ∧
      ('_' ∉ key.toList → before.fill written (some id.toBytes) key = before key) := by
    by_cases hin : key ∈ written
    · exact ⟨fun _ => .inr ⟨hsub hin, Contents.fill_of_mem _ _ hin⟩,
        fun hnot => (hnot (hkeys key (hsub hin))).elim⟩
    · exact ⟨fun _ => .inl (Contents.fill_of_notMem _ _ hin),
        fun _ => Contents.fill_of_notMem _ _ hin⟩
  cases h with
  | settled =>
    rw [Contents.fill_nil]
    by_cases hpayload : key = id.payloadKey
    · rw [hpayload, Function.update_self]
      exact ⟨fun hmem => (hid hmem).elim, fun _ => .inr ⟨rfl, rfl⟩⟩
    · rw [Function.update_of_ne hpayload]
      exact ⟨(hfill (List.Subset.refl _)).1, fun hnot => .inl ((hfill (List.Subset.refl _)).2 hnot)⟩
  | removing _ sub =>
    rw [List.subset_nil.1 sub, Contents.fill_nil]
    exact ⟨fun _ => .inl rfl, fun _ => .inl rfl⟩
  | writing _ sub =>
    rw [Contents.fill_nil]
    exact ⟨(hfill sub).1, fun hnot => .inl ((hfill sub).2 hnot)⟩

/-- **What insertions leave**, however they end. -/
theorem History.filed {log : Log} (hids : Function.Injective ids)
    (hseparator : ∀ n, '_' ∉ (ids n).text.toList) (h : History ν codec ids log s)
    (hlog : ∀ entry ∈ log, ∃ config space definitions record,
      entry.1 = .insert config space definitions record) : Filed codec ids log s := by
  induction h with
  | start => exact .empty
  | @change log s change o s' past ends ih =>
    have hfiled := ih fun entry hentry => hlog entry (.tail _ hentry)
    obtain ⟨config, space, definitions, record, hchange⟩ := hlog _ (.head _)
    dsimp only at hchange
    subst hchange
    rcases insert_mints ends with hsame | hminted
    · exact hfiled.cons hsame ends.minted_le
    rcases insert_ends ends with ⟨hsame, -⟩ | ⟨payload, hpayload, -, hwrites⟩
    · exact hfiled.cons hsame ends.minted_le
    · have hchanges := hwrites.of_insert (fun _ => separator_mem_of_mem_keysOf) (hseparator _)
      exact hfiled.write hids hminted hpayload (fun key => (hchanges key).1)
        (fun key => (hchanges key).2) hseparator

/-- **A record that is found has been inserted**, and the pointer is one of its own. -/
theorem Filed.of_found {log : Log} {key : String} {result : Record} (h : Filed codec ids log s)
    (hkey : '_' ∈ key.toList) (hfound : found codec s.contents key = .ok (some result)) :
    ∃ entry ∈ log, key ∈ entry.1.keys ∧ ∃ payload,
      codec.encode entry.1.record = .ok payload ∧ codec.decode payload = .ok result := by
  obtain ⟨id, payload, hpointer, hpayload, hdecode⟩ := exists_of_found hfound
  obtain ⟨entry, hentry, hmem, hencode⟩ := h.leads hpointer hkey hpayload
  exact ⟨entry, hentry, hmem, payload, hencode, hdecode⟩

/-! ### Lookups -/

section Values

variable {c : Compiler} {a : Assembly} {q : Query} {values asked : List Json}

/-- Where a lookup by equalities looks, also if nothing is asked for. -/
theorem pointerKey_of_leaves_of_some {key : String} (hq : a.clause c = .ok (.compiled q))
    (hequal : ∀ leaf ∈ a.leaves c.target, leaf.operator = .equal)
    (hkey : q.pointerKey? space = some key) : a.leaves c.target ≠ [] ∧
      key = space.indexKey (keySeparator.intercalate
        (((a.leaves c.target).map Condition.value).map Json.token)) := by
  have hne : a.leaves c.target ≠ [] := by
    intro hnil
    rw [Query.pointerKey?, (Assembly.outcome_of_leaves_eq_nil hq hnil).2.1] at hkey
    cases hkey
  rw [Assembly.pointerKey_of_leaves hq hne hequal] at hkey
  exact ⟨hne, (Option.some.inj hkey).symm⟩

/-- Values with one joined text are told apart up to the form of their tokens, if there is one of
them or if one side has no separator in its tokens. -/
theorem alike_of_intercalate_eq (hlength : values.length = asked.length)
    (hfinite : ∀ v ∈ values, v.Finite) (hfinite' : ∀ v ∈ asked, v.Finite)
    (hplain : asked.length = 1 ∨ (∀ v ∈ asked, '_' ∉ v.token.toList) ∨
      ∀ v ∈ values, '_' ∉ v.token.toList)
    (h : keySeparator.intercalate (values.map Json.token) =
      keySeparator.intercalate (asked.map Json.token)) : List.Forall₂ Json.Alike values asked := by
  have htokens : values.map Json.token = asked.map Json.token := by
    have hlengths : (values.map Json.token).length = (asked.map Json.token).length := by
      rw [List.length_map, List.length_map, hlength]
    rcases hplain with hone | hplain | hplain
    · obtain ⟨v, rfl⟩ := List.length_eq_one_iff.1 (hlength.trans hone)
      obtain ⟨w, rfl⟩ := List.length_eq_one_iff.1 hone
      simpa using h
    · exact (intercalate_inj_of_length hlengths.symm (by simpa using hplain) h.symm).symm
    · exact intercalate_inj_of_length hlengths (by simpa using hplain) h
  refine List.forall₂_iff_get.2 ⟨hlength, fun i hi hi' => ?_⟩
  have htoken := congrArg (fun tokens => tokens[i]?) htokens
  simp only [List.getElem?_map, List.getElem?_eq_getElem hi, List.getElem?_eq_getElem hi',
    Option.map_some, Option.some.injEq] at htoken
  exact (Json.token_eq_iff (hfinite _ (List.getElem_mem hi)) (hfinite' _ (List.getElem_mem hi'))).1
    htoken

/-- The values of a record are finite if its members are. -/
theorem finite_of_mapM {fields : List String} (hfinite : ∀ m ∈ record, m.2.Finite)
    (h : fields.mapM (fun field => record.lookup field) = some values) :
    ∀ v ∈ values, v.Finite := by
  intro v hv
  obtain ⟨field, -, hlookup⟩ := exists_mem_of_forall₂ (mapM_eq_some_iff.1 h) hv
  obtain ⟨before, after, hrecord, -⟩ := List.lookup_eq_some_iff.1 hlookup
  exact hfinite (field, v) (by rw [hrecord]; simp)

/-- **What a lookup by equality finds.** Let records be inserted under one definition into an empty
cache, however the insertions end. Let a query, assembled in any way for any target, consist of
equalities with the fields of the definition, in their order. If a lookup by this query returns
something then this is what the codec reads back of one of the inserted records; so it is this
record if the codec decodes what it encoded. The record has all fields of the definition, and the
tokens of its values come to the same text as those of the values that are asked for. If there is
only one field, or if no token on one of the two sides has a separator in it, then the record has
the values that are asked for, up to strings that are the text of another value.

Identifiers are distinct and have no separator, and numbers are finite. -/
theorem lookup_values {log : Log} {result : Record} (hids : Function.Injective ids)
    (hseparator : ∀ n, '_' ∉ (ids n).text.toList)
    (hlog : ∀ entry ∈ log, ∃ config record, entry.1 = .insert config space [definition] record)
    (hfinite : ∀ entry ∈ log, ∀ m ∈ entry.1.record, m.2.Finite)
    (hfinite' : ∀ leaf ∈ a.leaves c.target, leaf.value.Finite)
    (h : History ν codec ids log s) (hq : a.clause c = .ok (.compiled q))
    (hequal : ∀ leaf ∈ a.leaves c.target, leaf.operator = .equal)
    (hfields : (a.leaves c.target).map Condition.field = CompositeIndex.fieldNames definition)
    (hlookup : (lookupByEquality codec space q : Plan ν _).Ends mishaps ids s
      (some (.ok (some result))) s') :
    ∃ entry ∈ log, (∃ payload, codec.encode entry.1.record = .ok payload ∧
        codec.decode payload = .ok result) ∧
      ∃ values, (CompositeIndex.fieldNames definition).mapM
          (fun field => entry.1.record.lookup field) = some values ∧
        keySeparator.intercalate (values.map Json.token) =
          keySeparator.intercalate (((a.leaves c.target).map Condition.value).map Json.token) ∧
        ((a.leaves c.target).length = 1 ∨
            (∀ leaf ∈ a.leaves c.target, '_' ∉ leaf.value.token.toList) ∨
            (∀ v ∈ values, '_' ∉ v.token.toList) →
          List.Forall₂ Json.Alike values ((a.leaves c.target).map Condition.value)) := by
  obtain ⟨-, hfound | ⟨key, hstop⟩⟩ := lookupByEquality_ends hlookup
  swap
  · exact (Mishaps.not_stop_ok hstop).elim
  have hfound := (Option.some.inj hfound).symm
  rw [foundBy] at hfound
  split at hfound
  · cases hfound
  next key hkey =>
  obtain ⟨-, htokens⟩ := pointerKey_of_leaves_of_some hq hequal hkey
  have hfiled : Filed codec ids log s := by
    refine h.filed hids hseparator fun entry hentry => ?_
    obtain ⟨config, record, hinsert⟩ := hlog entry hentry
    exact ⟨config, space, [definition], record, hinsert⟩
  obtain ⟨entry, hentry, hmem, hread⟩ :=
    hfiled.of_found (Query.separator_mem_pointerKey hkey) hfound
  refine ⟨entry, hentry, hread, ?_⟩
  -- The record has the pointer that the query looks at, so both come to one text.
  obtain ⟨config, record, hinsert⟩ := hlog entry hentry
  have hfinite := hfinite entry hentry
  rw [hinsert] at hmem hfinite ⊢
  obtain ⟨values, hvalues, hkey'⟩ := exists_values_of_mem_keysOf hmem
  have hjoined := (String.append_right_inj _).1 (hkey'.symm.trans htokens)
  have hlength : values.length = ((a.leaves c.target).map Condition.value).length := by
    rw [← (mapM_eq_some_iff.1 hvalues).length_eq, ← hfields, List.length_map, List.length_map]
  refine ⟨values, hvalues, hjoined, fun hplain => ?_⟩
  refine alike_of_intercalate_eq hlength (finite_of_mapM hfinite hvalues) ?_ ?_ hjoined
  · simpa using hfinite'
  · simpa using hplain

end Values

/-! ### Users of a team -/

/-- A user of a team, under a number. -/
def numberedUser (id : ℤ) : Record := [("id", .num (.int id)), ("team", .str "t")]

/-- Two users are cached under their team and number; the payload of the second one is refused. -/
def usersInserted : Log × World FaultyStore :=
  Change.runAll growingIds Codec.record
    [({}, .insert {} ⟨"app", "users"⟩ ["team, id"] (numberedUser 8)),
      ({}, .insert {} ⟨"app", "users"⟩ ["team, id"] (numberedUser 7))] fourthWriteRefused

theorem growingIds_injective : Function.Injective growingIds.ids := by
  intro n m h
  have hlength := congrArg (fun id => id.text.toList.length) h
  simpa [growingIds] using hlength

theorem decode_numberedUser : ∀ payload, Codec.record.encode (numberedUser 7) = .ok payload →
    Codec.record.decode payload = .ok (numberedUser 7) := by
  intro payload hpayload
  cases hpayload
  cbv

/-- A lookup of the first user finds one with this team and this number. -/
theorem lookup_values_user : ∃ q : Query,
    Compiler.compile ⟨.relational, "?"⟩
      (.and [.equal "team" (.str "t"), .equal "id" (.num (.int 7))]) = .ok q ∧
    (lookupByEquality Codec.record ⟨"app", "users"⟩ q : Plan Empty _).Ends .never growingIds.ids
      usersInserted.2.snapshot (some (.ok (some (numberedUser 7)))) usersInserted.2.snapshot ∧
    ∃ entry ∈ usersInserted.1, ∃ values,
      ["team", "id"].mapM (fun field => entry.1.record.lookup field) = some values ∧
        List.Forall₂ Json.Alike values [.str "t", .num (.int 7)] := by
  obtain ⟨q, hq, hkey⟩ : ∃ q : Query,
      Compiler.compile ⟨.relational, "?"⟩
        (.and [.equal "team" (.str "t"), .equal "id" (.num (.int 7))]) = .ok q ∧
      q.pointerKey? ⟨"app", "users"⟩ = some "app_users_t_7" :=
    ⟨_, rfl, rfl⟩
  have hclause : (Assembly.compile (.and [.equal "team" (.str "t"),
      .equal "id" (.num (.int 7))])).clause ⟨.relational, "?"⟩ = .ok (.compiled q) := by
    rw [Assembly.clause, hq]
    rfl
  have hlookup : (lookupByEquality Codec.record ⟨"app", "users"⟩ q : Plan Empty _).Ends .never
      growingIds.ids usersInserted.2.snapshot (some (.ok (some (numberedUser 7))))
        usersInserted.2.snapshot := by
    have hpointer : usersInserted.2.snapshot.contents "app_users_t_7" =
        some (RecordId.toBytes ⟨"r"⟩) := by
      rfl
    have hpayload : usersInserted.2.snapshot.contents "r" =
        some (numberedUser 7).toJson.render.toUTF8 := by
      rfl
    exact lookupByEquality_ends_some hkey hpointer hpayload (decode_numberedUser _ rfl)
  have hlog : ∀ entry ∈ usersInserted.1, ∃ config record,
      entry.1 = .insert config ⟨"app", "users"⟩ ["team, id"] record ∧
        ∀ m ∈ record, m.2.Finite := by
    have hchanges : usersInserted.1.map Prod.fst =
        [.insert {} ⟨"app", "users"⟩ ["team, id"] (numberedUser 8),
          .insert {} ⟨"app", "users"⟩ ["team, id"] (numberedUser 7)] := by
      rfl
    have hfinite (id : ℤ) : ∀ m ∈ numberedUser id, m.2.Finite := by
      intro m hm
      rcases List.mem_pair.1 hm with rfl | rfl
      · exact .num rfl
      · exact .str _
    intro entry hentry
    have hmem := List.mem_map_of_mem (f := Prod.fst) hentry
    rw [hchanges] at hmem
    rcases List.mem_pair.1 hmem with hentry | hentry
    · exact ⟨{}, numberedUser 8, hentry, hfinite 8⟩
    · exact ⟨{}, numberedUser 7, hentry, hfinite 7⟩
  have hasked : ∀ leaf ∈ (Assembly.compile (.and [.equal "team" (.str "t"),
      .equal "id" (.num (.int 7))])).leaves .relational, leaf.value.Finite := by
    intro leaf hleaf
    rcases List.mem_pair.1 hleaf with rfl | rfl
    · exact .str _
    · exact .num rfl
  obtain ⟨entry, hentry, -, values, hvalues, -, halike⟩ :=
    lookup_values growingIds_injective (fun n => by simp [growingIds])
      (fun entry hentry => by
        obtain ⟨config, record, hinsert, -⟩ := hlog entry hentry
        exact ⟨config, record, hinsert⟩)
      (fun entry hentry => by
        obtain ⟨config, record, hinsert, hfinite⟩ := hlog entry hentry
        rw [hinsert]
        exact hfinite)
      hasked (History.of_runAll growingIds Codec.record rfl _) hclause (by decide) rfl hlookup
  exact ⟨q, hq, hlookup, entry, hentry, values, hvalues, halike (.inr (.inl (by decide)))⟩

/-- A record is cached in an empty store. -/
def recordInserted (definition : String) (record : Record) :
    Option (Except Error (Option RecordId)) × World MemoryStore :=
  (insert {} Codec.record ⟨"app", "users"⟩ [definition] record : Plan Empty _).run growingIds
    { now := 0, gate := Gate.ofCapacity 1, store := {} }

/-- What is found under a definition has exactly the values that are asked for, if the conditions
are such. -/
def FindsExactly (Such : List Condition → Prop) : Prop :=
  ∀ {definition : String} {record result : Record} {id : RecordId} {conditions : List Condition}
    {q : Query} {s s' : Snapshot}, Such conditions →
    (insert {} Codec.record ⟨"app", "users"⟩ [definition] record : Plan Empty _).Ends .always
      growingIds.ids .empty (some (.ok (some id))) s →
    (∀ condition ∈ conditions, condition.operator = .equal) →
    conditions.map Condition.field = CompositeIndex.fieldNames definition →
    Compiler.compile ⟨.relational, "?"⟩ (.and (conditions.map .leaf)) = .ok q →
    (lookupByEquality Codec.record ⟨"app", "users"⟩ q : Plan Empty _).Ends .never growingIds.ids s
      (some (.ok (some result))) s' →
    ∀ condition ∈ conditions, result.lookup condition.field = some condition.value

theorem recordInserted_ends {definition : String} {record : Record} {id : RecordId}
    (h : (recordInserted definition record).1 = some (.ok (some id))) :
    (insert {} Codec.record ⟨"app", "users"⟩ [definition] record : Plan Empty _).Ends .always
      growingIds.ids .empty (some (.ok (some id))) (recordInserted definition record).2.snapshot :=
  Plan.ends_of_run Mishaps.covers_always (Prod.ext h rfl)

theorem recordInserted_lookup (definition : String) (record : Record) {q : Query} {key : String}
    (hkey : q.pointerKey? ⟨"app", "users"⟩ = some key)
    (hpointer : (recordInserted definition record).2.contents key = some (RecordId.toBytes ⟨"r"⟩))
    (hpayload : (recordInserted definition record).2.contents "r" =
      some record.toJson.render.toUTF8)
    (hdecode : Codec.record.decode record.toJson.render.toUTF8 = .ok record) :
    (lookupByEquality Codec.record ⟨"app", "users"⟩ q : Plan Empty _).Ends .never growingIds.ids
      (recordInserted definition record).2.snapshot (some (.ok (some record)))
        (recordInserted definition record).2.snapshot :=
  lookupByEquality_ends_some hkey hpointer hpayload hdecode

/-- What is found can have other values, if they are strings with separators or if a string is the
text of a number. -/
theorem found_has_other_values :
    ¬ FindsExactly (fun conditions => ∀ c ∈ conditions, ∃ text, c.value = .str text) ∧
      ¬ FindsExactly (fun conditions => ∀ c ∈ conditions, '_' ∉ c.value.token.toList) := by
  refine ⟨fun hclaim => ?_, fun hclaim => ?_⟩
  · obtain ⟨q, hq, hkey⟩ : ∃ q : Query,
        Compiler.compile ⟨.relational, "?"⟩ (.and ([⟨"first", .equal, .str "ann"⟩,
          ⟨"last", .equal, .str "b_c"⟩].map .leaf)) = .ok q ∧
        q.pointerKey? ⟨"app", "users"⟩ = some "app_users_ann_b_c" :=
      ⟨_, rfl, rfl⟩
    have hlookup := recordInserted_lookup "first,last"
      [("first", .str "ann_b"), ("last", .str "c")] hkey rfl rfl (by cbv)
    have hfirst := hclaim (by simp) (recordInserted_ends rfl) (by decide) rfl hq hlookup _ (.head _)
    exact absurd hfirst (by simp)
  · obtain ⟨q, hq, hkey⟩ : ∃ q : Query,
        Compiler.compile ⟨.relational, "?"⟩ (.and ([⟨"id", .equal, .num (.int 7)⟩].map .leaf)) =
          .ok q ∧
        q.pointerKey? ⟨"app", "users"⟩ = some "app_users_7" :=
      ⟨_, rfl, rfl⟩
    have hlookup := recordInserted_lookup "id" [("id", .str "7")] hkey rfl rfl (by cbv)
    have hid := hclaim (by decide) (recordInserted_ends rfl) (by decide) rfl hq hlookup _ (.head _)
    exact absurd hid (by simp)

end Cache

end QueryCache
