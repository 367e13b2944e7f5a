import QueryCache.Proofs.Cache.History

/-!
# Updates that are cut short

An update writes the pointers of the new version before its payload. If it is cut short between the
two, a new pointer leads to the payload that is still there, the one of the old version. So what a
lookup by the new values finds after an update that failed is the old record, if the pointer had
been written by then, and nothing otherwise. It is never the new record, since nothing fails after
the payload.

## Main results

* `Cache.insert_into_empty` : what an insert leaves in a store that was empty.
* `Cache.update_unfinished` : what an update that fails leaves under a new key.
* `Cache.lookup_after_failed_update` : what lookups by the new values find after an update that
  failed.
-/

namespace QueryCache.Cache

variable {ν : Type} {config : Config} {codec : Codec Record} {space : KeySpace}
  {definitions : List String} {ids : Nat → RecordId} {mishaps mishaps' : Mishaps}
  {s s' : Snapshot} {old new : Record} {id : RecordId} {o : Option (Except Error (Option RecordId))}

/-- What an insert leaves in a store that was empty: its pointers and its payload. -/
theorem insert_into_empty
    (h : (insert config codec space definitions old : Plan ν _).Ends mishaps ids .empty
      (some (.ok (some id))) s) :
    ∃ payload, codec.encode old = .ok payload ∧ s.contents = Function.update
      (Contents.fill (fun _ => none) (keysOf config space definitions old) (some id.toBytes))
      id.payloadKey (some payload) := by
  obtain ⟨-, -, payload, hpayload, hafter⟩ := insert_some h
  exact ⟨payload, hpayload, hafter⟩

/-- **An update that fails** has changed nothing under a key that only the new version has, or has
written its identifier there. The second happens only if writing is what failed. The payload is as
it was. -/
theorem update_unfinished {key : String}
    (h : (update config codec space definitions old new : Plan ν _).Ends mishaps ids s o s')
    (hfails : ∀ r, o ≠ some (.ok r)) (hnotOld : key ∉ keysOf config space definitions old) :
    s'.contents = s.contents ∨ ∃ id, Chosen ids s (keysOf config space definitions old) id ∧
      (s'.contents key = s.contents key ∨
        StopsAt mishaps .set o ∧ s'.contents key = some id.toBytes) ∧
      (id.payloadKey ∉ keysOf config space definitions old →
        id.payloadKey ∉ keysOf config space definitions new →
          s'.contents id.payloadKey = s.contents id.payloadKey) := by
  rcases update_ends rfl rfl h with ⟨hsame, -⟩ | ⟨id, payload, hready, hwrites⟩
  · exact .inl hsame
  refine .inr ⟨id, hready.chosen, ?_⟩
  have hstale {k : String} (hk : k ∉ keysOf config space definitions old) :
      k ∉ staleKeys (keysOf config space definitions old) (keysOf config space definitions new) :=
    fun hmem => hk (staleKeys_subset _ _ hmem)
  generalize s'.contents = after at hwrites ⊢
  cases hwrites with
  | settled => exact (hfails _ rfl).elim
  | removing _ sub =>
    have hkept {k : String} (hk : k ∉ keysOf config space definitions old) :=
      s.contents.fill_of_notMem none fun hmem => hstale hk (sub hmem)
    exact ⟨.inl (hkept hnotOld), fun hid _ => hkept hid⟩
  | @writing _ written stop sub =>
    refine ⟨?_, fun hid hid' => ?_⟩
    · by_cases hwritten : key ∈ written
      · exact .inr ⟨stop, Contents.fill_of_mem _ _ hwritten⟩
      · left
        rw [Contents.fill_of_notMem _ _ hwritten, Contents.fill_of_notMem _ _ (hstale hnotOld)]
    · have hnotWritten : id.payloadKey ∉ written :=
        fun hmem => hid' (freshKeys_subset _ _ _ _ (sub hmem))
      rw [Contents.fill_of_notMem _ _ hnotWritten, Contents.fill_of_notMem _ _ (hstale hid)]

/-- **What lookups by the new values find after an update that failed.** Let a record be inserted in
an empty store, under an identifier that is not the text of a pointer's key, and let an update to a
new version fail, whatever went wrong with which of its calls. Take a key that the new version has
and the old one has not.

The key has no pointer, or one to the identifier; no pointer if it was not a call that sets that
went wrong. A lookup that is answered finds nothing in the first case and the old record in the
second. -/
theorem lookup_after_failed_update {query : Query} {key : String}
    (hinsert : (insert config codec space definitions old : Plan ν _).Ends mishaps ids .empty
      (some (.ok (some id))) s)
    (hcodec : ∀ payload, codec.encode old = .ok payload → codec.decode payload = .ok old)
    (hidOld : id.payloadKey ∉ keysOf config space definitions old)
    (hidNew : id.payloadKey ∉ keysOf config space definitions new)
    (hupdate : (update config codec space definitions old new : Plan ν _).Ends mishaps' ids s o s')
    (hfails : ∀ r, o ≠ some (.ok r)) (hquery : query.pointerKey? space = some key)
    (hnew : key ∈ keysOf config space definitions new)
    (hnotOld : key ∉ keysOf config space definitions old) :
    (s'.contents key = none ∨ s'.contents key = some id.toBytes) ∧
      (¬ StopsAt mishaps' .set o → s'.contents key = none) ∧
      ∀ result s'', (lookupByEquality codec space query : Plan ν _).Ends .never ids s' result s'' ↔
        result = some (.ok (if s'.contents key = none then none else some old)) ∧ s'' = s' := by
  obtain ⟨payload, hpayload, hcontents⟩ := insert_into_empty hinsert
  have hbefore : s.contents key = none := by
    have hne : key ≠ id.payloadKey := fun heq => hidNew (heq ▸ hnew)
    rw [hcontents, Function.update_of_ne hne, Contents.fill_of_notMem _ _ hnotOld]
  have hpointers : ∀ k ∈ keysOf config space definitions old, s.contents k = some id.toBytes := by
    intro k hk
    have hne : k ≠ id.payloadKey := fun heq => hidOld (heq ▸ hk)
    rw [hcontents, Function.update_of_ne hne, Contents.fill_of_mem _ _ hk]
  have hstored : s.contents id.payloadKey = some payload := by rw [hcontents, Function.update_self]
  have hafter : s'.contents id.payloadKey = some payload ∧ (s'.contents key = none ∨
      StopsAt mishaps' .set o ∧ s'.contents key = some id.toBytes) := by
    rcases update_unfinished hupdate hfails hnotOld with hsame | ⟨chosen, hchosen, hkey, hkept⟩
    · rw [hsame]
      exact ⟨hstored, .inl hbefore⟩
    -- The insert has put the same identifier under all old keys, so the update goes on with it.
    obtain rfl : chosen = id := by
      obtain ⟨hne, -⟩ := (insert_some hinsert).2
      obtain ⟨first, hfirst⟩ := List.exists_mem_of_ne_nil _ hne
      cases hchosen with
      | kept found target =>
        have hsame := target.symm.trans (hpointers _ (List.mem_of_find?_eq_some found))
        exact RecordId.toBytes_injective (Option.some.inj hsame)
      | minted missing _ => cases (missing first hfirst).symm.trans (hpointers first hfirst)
    rw [hkept hidOld hidNew, hbefore] at *
    exact ⟨hstored, hkey⟩
  obtain ⟨hpayload', hkey⟩ := hafter
  refine ⟨hkey.imp_right And.right, fun hset => hkey.resolve_right fun h => hset h.1,
    fun result s'' => ?_⟩
  rw [lookupByEquality_ends_never_iff, foundBy, hquery]
  rcases hkey with hnone | ⟨-, hsome⟩
  · simp only [found, hnone, if_true]
  · have hfound := found_eq_some hsome hpayload' (hcodec payload hpayload)
    simp only [hfound, hsome, reduceCtorEq, if_false]

/-! ### An address that changes -/

/-- An address is cached in a store that refuses the fourth write. -/
def addressInserted : Option (Except Error (Option RecordId)) × World FaultyStore :=
  (insert {} Codec.record ⟨"app", "users"⟩ ["mail"] [("mail", .str "a")] : Plan Empty _).run
    growingIds fourthWriteRefused

/-- Then it changes, and the payload of the new version is refused. -/
def addressUpdated : Option (Except Error (Option RecordId)) × World FaultyStore :=
  (update {} Codec.record ⟨"app", "users"⟩ ["mail"] [("mail", .str "a")] [("mail", .str "b")] :
    Plan Empty _).run growingIds addressInserted.2

theorem addressInserted_ends :
    (insert {} Codec.record ⟨"app", "users"⟩ ["mail"] [("mail", .str "a")] : Plan Empty _).Ends
      .always growingIds.ids .empty (some (.ok (some ⟨"r"⟩))) addressInserted.2.snapshot := by
  have hresult : addressInserted.1 = some (.ok (some ⟨"r"⟩)) := by rfl
  have hempty : fourthWriteRefused.snapshot = .empty := by rfl
  rw [← hempty]
  exact Plan.ends_of_run Mishaps.covers_always (Prod.ext hresult rfl)

theorem addressUpdated_ends :
    (update {} Codec.record ⟨"app", "users"⟩ ["mail"] [("mail", .str "a")] [("mail", .str "b")] :
      Plan Empty _).Ends .always growingIds.ids addressInserted.2.snapshot
        (some (.error (.cache (.transport "down")))) addressUpdated.2.snapshot := by
  have hresult : addressUpdated.1 = some (.error (.cache (.transport "down"))) := by rfl
  exact Plan.ends_of_run Mishaps.covers_always (Prod.ext hresult rfl)

theorem decode_address : ∀ payload, Codec.record.encode [("mail", .str "a")] = .ok payload →
    Codec.record.decode payload = .ok [("mail", .str "a")] := by
  intro payload hpayload
  cases hpayload
  cbv

theorem exists_addressQuery : ∃ q : Query,
    Compiler.compile ⟨.relational, "?"⟩ (.equal "mail" (.str "b")) = .ok q ∧
      q.pointerKey? ⟨"app", "users"⟩ = some "app_users_b" :=
  ⟨_, rfl, rfl⟩

/-- After the update that failed, a lookup by the new address finds the old one. -/
theorem lookup_after_failed_update_address : ∃ q : Query,
    Compiler.compile ⟨.relational, "?"⟩ (.equal "mail" (.str "b")) = .ok q ∧
    addressUpdated.1 = some (.error (.cache (.transport "down"))) ∧
    (lookupByEquality Codec.record ⟨"app", "users"⟩ q : Plan Empty _).Ends .never growingIds.ids
      addressUpdated.2.snapshot (some (.ok (some [("mail", .str "a")])))
        addressUpdated.2.snapshot := by
  obtain ⟨q, hq, hkey⟩ := exists_addressQuery
  obtain ⟨-, -, hlookup⟩ := lookup_after_failed_update addressInserted_ends decode_address
    (by decide +kernel) (by decide +kernel) addressUpdated_ends (fun r => by simp) hkey
    (by decide +kernel) (by decide +kernel)
  have hwritten : addressUpdated.2.snapshot.contents "app_users_b" =
      some (RecordId.toBytes ⟨"r"⟩) := by
    rfl
  refine ⟨q, hq, rfl, (hlookup _ _).2 ⟨?_, rfl⟩⟩
  rw [if_neg (by simp [hwritten])]

/-- An update that fails can leave the old record to be found by the new values. -/
theorem failed_update_exposes_old : ¬ ∀ {old new : Record} {id : RecordId} {s s' : Snapshot}
    {e : Error} {query : Query} {key : String},
      (insert {} Codec.record ⟨"app", "users"⟩ ["mail"] old : Plan Empty _).Ends .always
        growingIds.ids .empty (some (.ok (some id))) s →
      (update {} Codec.record ⟨"app", "users"⟩ ["mail"] old new : Plan Empty _).Ends .always
        growingIds.ids s (some (.error e)) s' →
      query.pointerKey? ⟨"app", "users"⟩ = some key →
      key ∈ keysOf {} ⟨"app", "users"⟩ ["mail"] new →
      key ∉ keysOf {} ⟨"app", "users"⟩ ["mail"] old →
      ∀ {result : Option Record} {s'' : Snapshot},
        (lookupByEquality Codec.record ⟨"app", "users"⟩ query : Plan Empty _).Ends .never
          growingIds.ids s' (some (.ok result)) s'' →
        result = some new ∨ result = none := by
  intro hclaim
  obtain ⟨q, hq, hkey⟩ := exists_addressQuery
  have hpointer : addressUpdated.2.snapshot.contents "app_users_b" =
      some (RecordId.toBytes ⟨"r"⟩) := by
    rfl
  have hpayload : addressUpdated.2.snapshot.contents "r" =
      some (Record.toJson [("mail", .str "a")]).render.toUTF8 := by
    rfl
  have hlookup : (lookupByEquality Codec.record ⟨"app", "users"⟩ q : Plan Empty _).Ends .never
      growingIds.ids addressUpdated.2.snapshot (some (.ok (some [("mail", .str "a")])))
        addressUpdated.2.snapshot :=
    lookupByEquality_ends_some hkey hpointer hpayload (decode_address _ rfl)
  have hresult := hclaim addressInserted_ends addressUpdated_ends hkey (by decide +kernel)
    (by decide +kernel) hlookup
  simp at hresult

end QueryCache.Cache
