import QueryCache.Proofs.Cache.History

/-!
# Records that share a pointer

Records with the same values in an index have the same pointer there, and it names the record that
was inserted last. An update of another one of them goes by the first of its old pointers, and so
may take that identifier for its own: then the payload that it writes replaces the payload of the
other record, and this is what the other record's own pointers lead to.

## Main results

* `Cache.History.isSome_of_insert` : pointers of inserted records stay.
* `Cache.found_after_update` : what another pointer leads to after an update.
* `Cache.lookup_after_update` : what lookups by another pointer find after an update.
-/

namespace QueryCache.Cache

variable {ν : Type} {config : Config} {codec : Codec Record} {space : KeySpace}
  {definitions : List String} {ids : Nat → RecordId} {mishaps : Mishaps} {s s' : Snapshot}

/-! ### Inserted records -/

/-- An insert removes nothing, however it ends. -/
theorem insert_keeps {record : Record} {o : Option (Except Error (Option RecordId))} {key : String}
    (h : (insert config codec space definitions record : Plan ν _).Ends mishaps ids s o s')
    (hkey : (s.contents key).isSome) : (s'.contents key).isSome := by
  have hfill (keys : List String) (value : ByteArray) :
      (s.contents.fill keys (some value) key).isSome := by
    by_cases hmem : key ∈ keys
    · rw [Contents.fill_of_mem _ _ hmem]
      rfl
    · rw [Contents.fill_of_notMem _ _ hmem]
      exact hkey
  rcases insert_ends h with ⟨hsame, -⟩ | ⟨payload, -, -, hwrites⟩
  · rw [hsame]
    exact hkey
  generalize s'.contents = after at hwrites ⊢
  cases hwrites with
  | settled =>
    rw [Contents.fill_nil, Function.update_apply]
    split
    · rfl
    · exact hfill _ _
  | removing _ sub =>
    rw [List.subset_nil.1 sub, Contents.fill_nil]
    exact hkey
  | writing _ sub =>
    rw [Contents.fill_nil]
    exact hfill _ _

/-- Insertions under some definitions, in one space, that succeeded. -/
def Inserts (config : Config) (space : KeySpace) (definitions : List String)
    (log : Log) : Prop :=
  ∀ entry ∈ log, ∃ record r, entry = (.insert config space definitions record, some (.ok r))

/-- **The pointers of an inserted record stay** when more records are inserted. -/
theorem History.isSome_of_insert {log : Log}
    {record : Record} {id : RecordId} (h : History ν codec ids log s)
    (hlog : Inserts config space definitions log)
    (hmem : (.insert config space definitions record, some (.ok (some id))) ∈ log) :
    keysOf config space definitions record ≠ [] ∧
      ∀ key ∈ keysOf config space definitions record, (s.contents key).isSome := by
  induction h with
  | start => cases hmem
  | change past ends ih =>
    rcases List.mem_cons.1 hmem with heq | hpast
    · cases heq
      obtain ⟨-, hne, payload, -, hafter⟩ := insert_some ends
      refine ⟨hne, fun key hkey => ?_⟩
      rw [hafter, Function.update_apply]
      split
      · rfl
      · rw [Contents.fill_of_mem _ _ hkey]
        rfl
    · obtain ⟨hne, hkeys⟩ :=
        ih (fun entry hentry => hlog entry (List.mem_cons_of_mem _ hentry)) hpast
      obtain ⟨last, r, heq⟩ := hlog _ List.mem_cons_self
      cases heq
      exact ⟨hne, fun key hkey => insert_keeps ends (hkeys key hkey)⟩

/-! ### Updates -/

/-- **What another pointer leads to after an update**: to what it led to before, unless it names the
identifier that the update has found under its first old pointer. -/
theorem found_after_update {records : List Record} {old new record : Record} {first key : String}
    {rest : List String} {r : Option RecordId} (hsound : Sound codec records s.contents)
    (hcodec : ∀ payload, codec.encode new = .ok payload → codec.decode payload = .ok new)
    (hkeys : keysOf config space definitions old = first :: rest)
    (hfirst : (s.contents first).isSome) (hkey : '_' ∈ key.toList)
    (hold : key ∉ keysOf config space definitions old)
    (hnew : key ∉ keysOf config space definitions new)
    (hfound : found codec s.contents key = .ok (some record))
    (h : (update config codec space definitions old new : Plan ν _).Ends mishaps ids s
      (some (.ok r)) s') :
    found codec s'.contents key =
      .ok (some (if s.contents first = s.contents key then new else record)) := by
  obtain ⟨other, stored, hpointer, hpayload, hdecode⟩ := exists_of_found hfound
  have hfind : (keysOf config space definitions old).find? (fun key => (s.contents key).isSome) =
      some first := by
    rw [hkeys]
    exact List.find?_cons_of_pos hfirst
  obtain ⟨id, payload, -, htarget, hencode, hafter⟩ := update_some rfl rfl hfind h
  have hseparator {record : Record} :
      ∀ key ∈ keysOf config space definitions record, '_' ∈ key.toList :=
    fun _ => separator_mem_of_mem_keysOf
  have hid : '_' ∉ id.text.toList :=
    hsound.notMem_of_pointer (hseparator first (by rw [hkeys]; exact List.mem_cons_self)) htarget
  have hother : '_' ∉ other.text.toList := hsound.notMem_of_pointer hkey hpointer
  -- Nothing happens to keys that are neither old nor new ones nor the identifier's.
  have hsame {k : String} (hkOld : k ∉ keysOf config space definitions old)
      (hkNew : k ∉ keysOf config space definitions new) (hne : k ≠ id.payloadKey) :
      s'.contents k = s.contents k := by
    rw [hafter, Function.update_of_ne hne,
      Contents.fill_of_notMem _ _ fun hmem => hkNew (freshKeys_subset _ _ _ _ hmem),
      Contents.fill_of_notMem _ _ fun hmem => hkOld (staleKeys_subset _ _ hmem)]
  have hpointer' : s'.contents key = some other.toBytes := by
    rw [hsame hold hnew, hpointer]
    rintro rfl
    exact hid hkey
  by_cases hshared : other = id
  · subst hshared
    have hpayload' : s'.contents other.payloadKey = some payload := by
      rw [hafter, Function.update_self]
    rw [if_pos (htarget.trans hpointer.symm)]
    exact found_eq_some hpointer' hpayload' (hcodec payload hencode)
  · have hpayload' : s'.contents other.payloadKey = some stored := by
      rw [hsame, hpayload]
      · exact fun hmem => hother (hseparator _ hmem)
      · exact fun hmem => hother (hseparator _ hmem)
      · exact fun heq => hshared (congrArg RecordId.mk heq)
    have hdiffer : s.contents first ≠ s.contents key := by
      rw [htarget, hpointer]
      exact fun heq => hshared (RecordId.toBytes_injective (Option.some.inj heq)).symm
    rw [if_neg hdiffer]
    exact found_eq_some hpointer' hpayload' hdecode

/-- **What lookups by another pointer find after an update.** Let records be inserted under some
definitions in an empty store, let one of them change, and let a query look under a key that neither
its old nor its new version has. If the query finds a record before the update, then it finds the
same after the update, unless its pointer names what the first pointer of the old version names. In
this case it finds the new version, even if that is the version of another record. -/
theorem lookup_after_update {log : Log}
    {old new record : Record} {id : RecordId} {r : Option RecordId} {query : Query} {key : String}
    (hids : ∀ n, '_' ∉ (ids n).text.toList)
    (hcodec : ∀ payload, codec.encode new = .ok payload → codec.decode payload = .ok new)
    (h : History ν codec ids log s) (hlog : Inserts config space definitions log)
    (hmem : (.insert config space definitions old, some (.ok (some id))) ∈ log)
    (hkey : query.pointerKey? space = some key)
    (hold : key ∉ keysOf config space definitions old)
    (hnew : key ∉ keysOf config space definitions new)
    (hbefore : (lookupByEquality codec space query : Plan ν _).Ends .never ids s
      (some (.ok (some record))) s)
    (hupdate : (update config codec space definitions old new : Plan ν _).Ends mishaps ids s
      (some (.ok r)) s') :
    ∃ first, (keysOf config space definitions old).head? = some first ∧
      ∀ o s'', (lookupByEquality codec space query : Plan ν _).Ends .never ids s' o s'' ↔
        o = some (.ok (some (if s.contents first = s.contents key then new else record))) ∧
          s'' = s' := by
  obtain ⟨hne, hthere⟩ := h.isSome_of_insert hlog hmem
  obtain ⟨first, rest, hkeys⟩ := List.exists_cons_of_ne_nil hne
  have hfirst : (s.contents first).isSome := hthere first (by rw [hkeys]; exact List.mem_cons_self)
  have hfound : found codec s.contents key = .ok (some record) := by
    have hresult := (lookupByEquality_ends_never_iff.1 hbefore).1
    rw [foundBy, hkey] at hresult
    exact (Option.some.inj hresult).symm
  refine ⟨first, by rw [hkeys, List.head?_cons], fun o s'' => ?_⟩
  rw [lookupByEquality_ends_never_iff, foundBy, hkey]
  dsimp only
  rw [found_after_update (h.sound hids) hcodec hkeys hfirst (query.separator_mem_pointerKey hkey)
    hold hnew hfound hupdate]

/-! ### Two users of a team -/

/-- A user of the team. -/
def teamUser (id : String) : Record := [("id", .str id), ("team", .str "t")]

/-- Two users of the team are inserted in an empty store. -/
def teamInserted : Log × World MemoryStore :=
  Change.runAll growingIds Codec.record
    [({}, .insert {} ⟨"app", "users"⟩ ["team", "id"] (teamUser "2")),
      ({}, .insert {} ⟨"app", "users"⟩ ["team", "id"] (teamUser "1"))]
    { now := 0, gate := Gate.ofCapacity 1, store := {} }

/-- Then the first one changes. -/
def firstUpdated : Option (Except Error (Option RecordId)) × World MemoryStore :=
  (update {} Codec.record ⟨"app", "users"⟩ ["team", "id"] (teamUser "1") (teamUser "3") :
    Plan Empty _).run growingIds teamInserted.2

theorem decode_teamUser : ∀ id ∈ ["2", "3"], ∀ payload,
    Codec.record.encode (teamUser id) = .ok payload →
      Codec.record.decode payload = .ok (teamUser id) := by
  intro id hid payload hpayload
  cases hpayload
  rcases List.mem_pair.1 hid with rfl | rfl
  · cbv
  · cbv

theorem teamInserted_log : teamInserted.1 =
    [(.insert {} ⟨"app", "users"⟩ ["team", "id"] (teamUser "2"), some (.ok (some ⟨"rr"⟩))),
      (.insert {} ⟨"app", "users"⟩ ["team", "id"] (teamUser "1"), some (.ok (some ⟨"r"⟩)))] := by
  rfl

theorem inserts_teamInserted : Inserts {} ⟨"app", "users"⟩ ["team", "id"] teamInserted.1 := by
  intro entry hentry
  rw [teamInserted_log] at hentry
  rcases List.mem_pair.1 hentry with rfl | rfl
  · exact ⟨_, _, rfl⟩
  · exact ⟨_, _, rfl⟩

theorem firstUpdated_ends :
    (update {} Codec.record ⟨"app", "users"⟩ ["team", "id"] (teamUser "1") (teamUser "3") :
      Plan Empty _).Ends .always growingIds.ids teamInserted.2.snapshot
        (some (.ok (some ⟨"rr"⟩))) firstUpdated.2.snapshot := by
  have hresult : firstUpdated.1 = some (.ok (some ⟨"rr"⟩)) := by rfl
  exact Plan.ends_of_run Mishaps.covers_always (Prod.ext hresult rfl)

/-- Before, a lookup by the second user's id finds the second user. -/
theorem teamInserted_lookup {q : Query} (hq : q.pointerKey? ⟨"app", "users"⟩ = some "app_users_2") :
    (lookupByEquality Codec.record ⟨"app", "users"⟩ q : Plan Empty _).Ends .never growingIds.ids
      teamInserted.2.snapshot (some (.ok (some (teamUser "2")))) teamInserted.2.snapshot := by
  have hpointer : teamInserted.2.snapshot.contents "app_users_2" =
      some (RecordId.toBytes ⟨"rr"⟩) := by
    rfl
  have hpayload : teamInserted.2.snapshot.contents "rr" =
      some (teamUser "2").toJson.render.toUTF8 := by
    rfl
  refine lookupByEquality_ends_never_iff.2 ⟨congrArg some ?_, rfl⟩
  rw [foundBy, hq]
  exact (found_eq_some hpointer hpayload (decode_teamUser "2" (by decide) _ rfl)).symm

/-- The second user's payload is replaced by the new version of the first one, and a lookup by the
second user's id finds this. -/
theorem lookup_after_update_team : ∃ q : Query,
    Compiler.compile ⟨.relational, "?"⟩ (.equal "id" (.str "2")) = .ok q ∧
    (lookupByEquality Codec.record ⟨"app", "users"⟩ q : Plan Empty _).Ends .never growingIds.ids
      teamInserted.2.snapshot (some (.ok (some (teamUser "2")))) teamInserted.2.snapshot ∧
    (lookupByEquality Codec.record ⟨"app", "users"⟩ q : Plan Empty _).Ends .never growingIds.ids
      firstUpdated.2.snapshot (some (.ok (some (teamUser "3")))) firstUpdated.2.snapshot := by
  obtain ⟨q, hq⟩ : ∃ q, Compiler.compile ⟨.relational, "?"⟩ (.equal "id" (.str "2")) = .ok q :=
    ⟨_, rfl⟩
  have hkey : q.pointerKey? ⟨"app", "users"⟩ = some "app_users_2" := by
    cases hq
    rfl
  have hbefore := teamInserted_lookup hkey
  obtain ⟨first, hfirst, hafter⟩ := lookup_after_update (fun n => by simp [growingIds])
    (decode_teamUser "3" (by decide)) (History.of_runAll growingIds Codec.record rfl _)
    inserts_teamInserted (.tail _ (.head _)) hkey (by decide +kernel) (by decide +kernel) hbefore
    firstUpdated_ends
  refine ⟨q, hq, hbefore, (hafter _ _).2 ⟨?_, rfl⟩⟩
  obtain rfl := Option.some.inj (show some "app_users_t" = some first from hfirst)
  rw [if_pos (by rfl)]

/-- An update of one record can change what is found for another one that has another identifier. -/
theorem update_replaces_other_record : ¬ ∀ {log : Log} {s s' : Snapshot} {a a' b : Record}
    {idA idB : RecordId} {r : Option RecordId} {query : Query} {key : String},
      History Empty Codec.record growingIds.ids log s →
      Inserts {} ⟨"app", "users"⟩ ["team", "id"] log →
      (.insert {} ⟨"app", "users"⟩ ["team", "id"] a, some (.ok (some idA))) ∈ log →
      (.insert {} ⟨"app", "users"⟩ ["team", "id"] b, some (.ok (some idB))) ∈ log → idA ≠ idB →
      query.pointerKey? ⟨"app", "users"⟩ = some key →
      key ∈ keysOf {} ⟨"app", "users"⟩ ["team", "id"] b →
      key ∉ keysOf {} ⟨"app", "users"⟩ ["team", "id"] a →
      key ∉ keysOf {} ⟨"app", "users"⟩ ["team", "id"] a' →
      (lookupByEquality Codec.record ⟨"app", "users"⟩ query : Plan Empty _).Ends .never
        growingIds.ids s (some (.ok (some b))) s →
      (update {} Codec.record ⟨"app", "users"⟩ ["team", "id"] a a' : Plan Empty _).Ends .always
        growingIds.ids s (some (.ok r)) s' →
      (lookupByEquality Codec.record ⟨"app", "users"⟩ query : Plan Empty _).Ends .never
        growingIds.ids s' (some (.ok (some b))) s' := by
  intro hclaim
  obtain ⟨q, hq⟩ : ∃ q, Compiler.compile ⟨.relational, "?"⟩ (.equal "id" (.str "2")) = .ok q :=
    ⟨_, rfl⟩
  have hkey : q.pointerKey? ⟨"app", "users"⟩ = some "app_users_2" := by
    cases hq
    rfl
  have hafter := hclaim (History.of_runAll growingIds Codec.record rfl _) inserts_teamInserted
    (.tail _ (.head _)) (.head _) (by decide) hkey (by decide +kernel) (by decide +kernel)
    (by decide +kernel) (teamInserted_lookup hkey) firstUpdated_ends
  have hpointer : firstUpdated.2.snapshot.contents "app_users_2" =
      some (RecordId.toBytes ⟨"rr"⟩) := by
    rfl
  have hpayload : firstUpdated.2.snapshot.contents "rr" =
      some (teamUser "3").toJson.render.toUTF8 := by
    rfl
  have hresult := (lookupByEquality_ends_never_iff.1 hafter).1
  rw [foundBy, hkey] at hresult
  have hfound := found_eq_some hpointer hpayload (decode_teamUser "3" (by decide) _ rfl)
  have hsame : teamUser "2" = teamUser "3" :=
    Option.some.inj (Except.ok.inj ((Option.some.inj hresult).trans hfound))
  simp [teamUser] at hsame

end QueryCache.Cache
