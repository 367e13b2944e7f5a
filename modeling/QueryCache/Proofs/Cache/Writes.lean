import Mathlib
import QueryCache.Proofs.Cache.Update
import QueryCache.Proofs.Index
import QueryCache.Proofs.Plan.Refinement

/-!
# How caching a record ends

Caching a record and keeping up with its changes go through the same phases: nothing is written
until the definitions, the old pointers and the payload are found to be in order; then stale
pointers are removed, new ones are written, and the payload at last. Whatever goes wrong, and
wherever, one of these phases is cut short and the later ones have not begun.

## Main definitions

* `Cache.Declared` : definitions that a configuration accepts.
* `Cache.keysOf`, `Cache.staleKeys`, `Cache.freshKeys` : the keys that are removed and written.
* `Cache.Chosen` : the identifier that an update writes under.
* `Cache.StopsAt` : an end that a call of some kind is to blame for.
* `Cache.WritesEnd` : how the writes under an identifier end, and what they leave.

## Main results

* `Cache.mem_keysOf` : the keys of the pointers to a record.
* `Cache.readPointers_ends` : how reading pointers ends.
* `Cache.insert_ends`, `Cache.update_ends` : how caching a record ends, and how an update does.
-/

namespace QueryCache

theorem RecordId.toBytes_injective : Function.Injective RecordId.toBytes := by
  intro id id' h
  have htext := congrArg Utf8.decode h
  rw [RecordId.toBytes, RecordId.toBytes, Utf8.decode_toUTF8, Utf8.decode_toUTF8] at htext
  exact congrArg RecordId.mk (Except.ok.inj htext)

namespace Cache

variable {ν : Type} {config : Config} {codec : Codec Record} {space : KeySpace}
  {definitions : List String} {mishaps : Mishaps} {ids : Nat → RecordId} {s s' : Snapshot}

/-! ### Keys -/

/-- The definitions can be used with this configuration. -/
abbrev Declared (config : Config) (definitions : List String) : Prop :=
  CompositeIndex.Accepted config.maxIndexes config.maxCompositeFields definitions

theorem indexesOf_eq_ok_iff {indexes : List CompositeIndex} :
    indexesOf config definitions = .ok indexes ↔ Declared config definitions ∧
      indexes = definitions.map fun definition =>
        ⟨definition, CompositeIndex.fieldNames definition⟩ :=
  CompositeIndex.parseAll_eq_ok_iff

/-- The keys of the pointers to a record under some definitions; none if the definitions are
refused. -/
def keysOf (config : Config) (space : KeySpace) (definitions : List String) (record : Record) :
    List String :=
  match indexesOf config definitions with
  | .ok indexes => pointerKeys space indexes record
  | .error _ => []

theorem keysOf_of_ok {indexes : List CompositeIndex}
    (h : indexesOf config definitions = .ok indexes) (record : Record) :
    keysOf config space definitions record = pointerKeys space indexes record := by
  rw [keysOf, h]

/-- **The keys of a record's pointers**: one for each definition whose fields the record has all,
under the tokens of their values. -/
theorem mem_keysOf {record : Record} {key : String} :
    key ∈ keysOf config space definitions record ↔ Declared config definitions ∧
      ∃ definition ∈ definitions, ∃ values, (CompositeIndex.fieldNames definition).mapM
        (fun field => record.lookup field) = some values ∧
          key = space.indexKey (keySeparator.intercalate (values.map Json.token)) := by
  rw [keysOf]
  split
  next indexes hindexes =>
    obtain ⟨hdeclared, rfl⟩ := indexesOf_eq_ok_iff.1 hindexes
    simp only [mem_pointerKeys, List.mem_map, exists_exists_and_eq_and, hdeclared, true_and]
  next e he =>
    refine iff_of_false List.not_mem_nil fun ⟨hdeclared, _⟩ => ?_
    cases he.symm.trans (indexesOf_eq_ok_iff.2 ⟨hdeclared, rfl⟩)

theorem nodup_keysOf (record : Record) : (keysOf config space definitions record).Nodup := by
  rw [keysOf]
  split
  · exact nodup_pointerKeys _ _ _
  · exact List.nodup_nil

/-- The old keys that the new version of a record no longer has. -/
def staleKeys (oldKeys newKeys : List String) : List String :=
  oldKeys.filter fun key => !newKeys.contains key

/-- The new keys whose pointers are to be written: all but those old ones that name the identifier
already. -/
def freshKeys (before : Contents) (oldKeys newKeys : List String) (id : RecordId) : List String :=
  newKeys.filter fun key => !(oldKeys.contains key && decide (before key = some id.toBytes))

theorem staleKeys_subset (oldKeys newKeys : List String) : staleKeys oldKeys newKeys ⊆ oldKeys :=
  List.filter_subset_self _

theorem freshKeys_subset (before : Contents) (oldKeys newKeys : List String) (id : RecordId) :
    freshKeys before oldKeys newKeys id ⊆ newKeys :=
  List.filter_subset_self _

/-- A pointer that was read names an identifier exactly if it is under one of the keys and holds the
identifier's bytes. -/
theorem Resolved.lookup_eq_some_iff {m : Contents} {keys : List String}
    {current : List (String × RecordId)} (h : Resolved m keys current) {key : String}
    {id : RecordId} : current.lookup key = some id ↔ key ∈ keys ∧ m key = some id.toBytes := by
  refine ⟨fun hlookup => (h.of_lookup hlookup).symm, ?_⟩
  rintro ⟨hmem, hkey⟩
  induction h with
  | nil => cases hmem
  | missing hnone _ ih =>
    rcases List.mem_cons.1 hmem with rfl | hrest
    · cases hnone.symm.trans hkey
    · exact ih hrest
  | @found k keys current id' hk _ ih =>
    rw [Assoc.lookup_cons]
    split
    next heq =>
      subst heq
      exact congrArg some (RecordId.toBytes_injective (Option.some.inj (hk.symm.trans hkey)))
    next hne =>
      rcases List.mem_cons.1 hmem with rfl | hrest
      · exact (hne rfl).elim
      · exact ih hrest

theorem Resolved.filter_eq_freshKeys {m : Contents} {oldKeys : List String}
    {current : List (String × RecordId)} (h : Resolved m oldKeys current) (newKeys : List String)
    (id : RecordId) :
    (newKeys.filter fun key => current.lookup key != some id) = freshKeys m oldKeys newKeys id := by
  rw [freshKeys]
  refine List.filter_congr fun key _ => ?_
  rw [Bool.eq_iff_iff]
  simp [h.lookup_eq_some_iff, imp_iff_not_or]

theorem Resolved.exists_toBytes {m : Contents} {keys : List String}
    {current : List (String × RecordId)} (h : Resolved m keys current) :
    ∀ key ∈ keys, ∀ bytes, m key = some bytes → ∃ id : RecordId, bytes = id.toBytes := by
  induction h with
  | nil => exact fun key hmem => (nomatch hmem)
  | missing hnone _ ih =>
    intro key hmem bytes hkey
    rcases List.mem_cons.1 hmem with rfl | hrest
    · cases hnone.symm.trans hkey
    · exact ih key hrest bytes hkey
  | @found k keys current id hk _ ih =>
    intro key hmem bytes hkey
    rcases List.mem_cons.1 hmem with rfl | hrest
    · exact ⟨id, Option.some.inj (hkey.symm.trans hk)⟩
    · exact ih key hrest bytes hkey

/-! ### Phases -/

/-- The identifier that an update writes under: that of the first old pointer that is there, or the
next new one. -/
inductive Chosen (ids : Nat → RecordId) (s : Snapshot) (oldKeys : List String) (id : RecordId) :
    Prop
  | kept {key} (first : oldKeys.find? (fun key => (s.contents key).isSome) = some key)
      (target : s.contents key = some id.toBytes)
  | minted (missing : ∀ key ∈ oldKeys, s.contents key = none) (new : id = ids s.minted)

/-- A plan that ends because something goes wrong with a call of some kind. -/
def StopsAt (mishaps : Mishaps) (kind : CallKind) {α : Type} (o : Option (Except Error α)) : Prop :=
  ∃ c : Call, c.kind = kind ∧ mishaps.Stop [c] o

theorem stopsAt_of_map {α : Type} {o : Option (Except Error α)} {keys : List String}
    {act : String → Call} {kind : CallKind} (hact : ∀ key, (act key).kind = kind)
    (h : mishaps.Stop (keys.map act) o) : StopsAt mishaps kind o := by
  obtain ⟨c, hc, fault, hfault, ho⟩ := h
  obtain ⟨key, -, rfl⟩ := List.mem_map.1 hc
  exact ⟨act key, hact key, act key, List.mem_singleton_self _, fault, hfault, ho⟩

/-- How the writes under an identifier end, and what they leave: all of them are made, or they are
cut short while stale pointers are removed, or while new ones are written. -/
inductive WritesEnd (mishaps : Mishaps) (before : Contents) (stale fresh : List String)
    (id : RecordId) (payload : ByteArray) :
    Option (Except Error (Option RecordId)) → Contents → Prop
  | settled : WritesEnd mishaps before stale fresh id payload (some (.ok (some id)))
      (Function.update ((before.fill stale none).fill fresh (some id.toBytes)) id.payloadKey
        (some payload))
  | removing {o removed} (stop : StopsAt mishaps .delete o) (sub : removed ⊆ stale) :
      WritesEnd mishaps before stale fresh id payload o (before.fill removed none)
  | writing {o written} (stop : StopsAt mishaps .set o) (sub : written ⊆ fresh) :
      WritesEnd mishaps before stale fresh id payload o
        ((before.fill stale none).fill written (some id.toBytes))

/-- Writes that do not fail have all been made. -/
theorem WritesEnd.of_ok {before after : Contents} {stale fresh : List String} {id : RecordId}
    {payload : ByteArray} {r : Option RecordId}
    (h : WritesEnd mishaps before stale fresh id payload (some (.ok r)) after) :
    r = some id ∧ after = Function.update ((before.fill stale none).fill fresh (some id.toBytes))
      id.payloadKey (some payload) := by
  generalize ho : (some (.ok r) : Option (Except Error (Option RecordId))) = o at h
  cases h with
  | settled =>
    cases ho
    exact ⟨rfl, rfl⟩
  | removing stop _ | writing stop _ =>
    obtain ⟨c, -, hstop⟩ := stop
    rw [← ho] at hstop
    exact (Mishaps.not_stop_ok hstop).elim

/-- How the writes of pointers and payload end, once the stale pointers are gone. -/
theorem setAll_set_ends {before : Contents} {stale fresh : List String} {id : RecordId}
    {payload : ByteArray} {o : Option (Except Error (Option RecordId))}
    (hbefore : s.contents = before.fill stale none)
    (h : ((Plan.setAll fresh id.toBytes >>= fun _ => Plan.set id.payloadKey payload >>= fun _ =>
      pure (some id)) : Plan ν _).Ends mishaps ids s o s') :
    WritesEnd mishaps before stale fresh id payload o s'.contents := by
  rcases Plan.Ends.of_setAll h with h | ⟨hstop, written, hsub, rfl⟩
  · rcases Plan.ends_set_bind_iff.1 h with h | ⟨hstop, rfl⟩
    · obtain ⟨rfl, rfl⟩ := Plan.ends_pure_iff.1 h
      rw [Snapshot.fill, hbefore]
      exact .settled
    · rw [Snapshot.fill, hbefore]
      exact .writing ⟨_, rfl, hstop⟩ (List.Subset.refl _)
  · rw [Snapshot.fill, hbefore]
    exact .writing (stopsAt_of_map (fun _ => rfl) hstop) hsub

/-- **How reading pointers ends**: nothing changes, and what is read is there. -/
theorem readPointers_ends {keys : List String}
    {o : Option (Except Error (List (String × RecordId)))}
    (h : (readPointers keys : Plan ν _).Ends mishaps ids s o s') :
    s' = s ∧ ∀ current, o = some (.ok current) → Resolved s.contents keys current := by
  induction keys generalizing o s' with
  | nil =>
    obtain ⟨rfl, rfl⟩ := Plan.ends_pure_iff.1 h
    refine ⟨rfl, fun current hcurrent => ?_⟩
    cases hcurrent
    exact .nil
  | cons key rest ih =>
    rcases Plan.ends_get_bind_iff.1 h with h | ⟨hstop, rfl⟩
    · cases hkey : s.contents key with
      | none =>
        rw [hkey] at h
        obtain ⟨rfl, hresolved⟩ := ih h
        exact ⟨rfl, fun current hcurrent => .missing hkey (hresolved current hcurrent)⟩
      | some bytes =>
        rw [hkey] at h
        rcases Plan.ends_lift_bind_iff.1 h with ⟨id, htarget, h⟩ | ⟨e, -, rfl, rfl⟩
        · rcases Plan.ends_bind_iff.1 h with
            ⟨others, s₁, hrest, hdone⟩ | ⟨e, hrest, rfl⟩ | ⟨hrest, rfl⟩
          · obtain ⟨rfl, hresolved⟩ := ih hrest
            obtain ⟨rfl, rfl⟩ := Plan.ends_pure_iff.1 hdone
            refine ⟨rfl, fun current hcurrent => ?_⟩
            cases hcurrent
            rw [← toBytes_of_pointerTarget htarget] at hkey
            exact .found hkey (hresolved others rfl)
          · exact ⟨(ih hrest).1, fun current hcurrent => nomatch hcurrent⟩
          · exact ⟨(ih hrest).1, fun current hcurrent => nomatch hcurrent⟩
        · exact ⟨rfl, fun current hcurrent => nomatch hcurrent⟩
    · exact ⟨rfl, fun current hcurrent => (Mishaps.not_stop_ok (hcurrent ▸ hstop)).elim⟩

/-! ### Inserts and updates -/

/-- **How caching a record ends**: before anything is written, or with the writes of its pointers
and payload under the next identifier. -/
theorem insert_ends {record : Record} {o : Option (Except Error (Option RecordId))}
    (h : (insert config codec space definitions record : Plan ν _).Ends mishaps ids s o s') :
    (s'.contents = s.contents ∧ ∀ id, o ≠ some (.ok (some id))) ∨
      ∃ payload, codec.encode record = .ok payload ∧ keysOf config space definitions record ≠ [] ∧
        WritesEnd mishaps s.contents [] (keysOf config space definitions record) (ids s.minted)
          payload o s'.contents := by
  rw [insert] at h
  split at h
  · obtain ⟨rfl, rfl⟩ := Plan.ends_pure_iff.1 h
    exact .inl ⟨rfl, fun id hid => nomatch hid⟩
  rcases Plan.ends_lift_bind_iff.1 h with ⟨indexes, hindexes, h⟩ | ⟨e, -, rfl, rfl⟩
  swap
  · exact .inl ⟨rfl, fun id hid => nomatch hid⟩
  dsimp only at h
  split at h
  · obtain ⟨rfl, rfl⟩ := Plan.ends_pure_iff.1 h
    exact .inl ⟨rfl, fun id hid => nomatch hid⟩
  next hkeys =>
  rcases Plan.ends_lift_bind_iff.1 h with ⟨payload, hpayload, h⟩ | ⟨e, -, rfl, rfl⟩
  swap
  · exact .inl ⟨rfl, fun id hid => nomatch hid⟩
  rw [keysOf_of_ok hindexes]
  exact .inr ⟨payload, encode_eq_ok hpayload, by simpa using hkeys,
    setAll_set_ends (by rw [Contents.fill_nil]) (Plan.ends_newId_bind_iff.1 h)⟩

/-- What an insert that returns an identifier leaves. -/
theorem insert_some {record : Record} {id : RecordId}
    (h : (insert config codec space definitions record : Plan ν _).Ends mishaps ids s
      (some (.ok (some id))) s') :
    id = ids s.minted ∧ keysOf config space definitions record ≠ [] ∧
      ∃ payload, codec.encode record = .ok payload ∧ s'.contents = Function.update
        (s.contents.fill (keysOf config space definitions record) (some id.toBytes)) id.payloadKey
        (some payload) := by
  rcases insert_ends h with ⟨-, hnone⟩ | ⟨payload, hpayload, hkeys, hwrites⟩
  · exact (hnone id rfl).elim
  · obtain ⟨hid, hafter⟩ := hwrites.of_ok
    obtain rfl := Option.some.inj hid
    rw [Contents.fill_nil] at hafter
    exact ⟨rfl, hkeys, payload, hpayload, hafter⟩

/-- An update has found everything in order and goes on to write under an identifier. -/
structure Ready (config : Config) (codec : Codec Record) (definitions : List String)
    (ids : Nat → RecordId) (s : Snapshot) (oldKeys : List String) (new : Record) (id : RecordId)
    (payload : ByteArray) : Prop where
  limits : ∃ indexes, indexesOf config definitions = .ok indexes
  readable : ∀ key ∈ oldKeys, ∀ bytes, s.contents key = some bytes →
    ∃ target : RecordId, bytes = target.toBytes
  chosen : Chosen ids s oldKeys id
  encoded : codec.encode new = .ok payload

/-- How replacing pointers and payload ends: the payload is refused, or with the writes. -/
theorem replace_ends {before : Contents} {oldKeys newKeys : List String}
    {current : List (String × RecordId)} {id : RecordId} {record : Record}
    {o : Option (Except Error (Option RecordId))} (hresolved : Resolved before oldKeys current)
    (hbefore : s.contents = before)
    (h : (replace codec oldKeys newKeys current id record : Plan ν _).Ends mishaps ids s o s') :
    (s'.contents = before ∧ ∀ r, o ≠ some (.ok r)) ∨
      ∃ payload, codec.encode record = .ok payload ∧
        WritesEnd mishaps before (staleKeys oldKeys newKeys)
          (freshKeys before oldKeys newKeys id) id payload o s'.contents := by
  rcases Plan.ends_lift_bind_iff.1 h with ⟨payload, hpayload, h⟩ | ⟨e, -, rfl, rfl⟩
  swap
  · exact .inl ⟨hbefore, fun r hr => nomatch hr⟩
  refine .inr ⟨payload, encode_eq_ok hpayload, ?_⟩
  rw [hresolved.filter_eq_freshKeys] at h
  rcases Plan.Ends.of_deleteAll h with h | ⟨hstop, removed, hsub, rfl⟩
  · exact setAll_set_ends (by rw [Snapshot.fill, hbefore, staleKeys]) h
  · rw [Snapshot.fill, hbefore]
    exact .removing (stopsAt_of_map (fun _ => rfl) hstop) hsub

/-- **How an update ends**: before anything is written, or with the writes of pointers and payload
under the identifier of the first old pointer that is there, or under the next one. If it returns
nothing, no old pointer is there. -/
theorem update_ends {old new : Record} {o : Option (Except Error (Option RecordId))}
    {oldKeys newKeys : List String} (hold : oldKeys = keysOf config space definitions old)
    (hnew : newKeys = keysOf config space definitions new)
    (h : (update config codec space definitions old new : Plan ν _).Ends mishaps ids s o s') :
    (s'.contents = s.contents ∧
        ∀ r, o = some (.ok r) → r = none ∧ ∀ key ∈ oldKeys, s.contents key = none) ∨
      ∃ id payload, Ready config codec definitions ids s oldKeys new id payload ∧
        WritesEnd mishaps s.contents (staleKeys oldKeys newKeys)
          (freshKeys s.contents oldKeys newKeys id) id payload o s'.contents := by
  rw [update] at h
  split at h
  next hempty =>
    obtain rfl := List.isEmpty_iff.1 hempty
    obtain ⟨rfl, rfl⟩ := Plan.ends_pure_iff.1 h
    refine .inl ⟨rfl, fun r hr => ?_⟩
    cases hr
    rw [hold]
    exact ⟨rfl, by rintro key ⟨⟩⟩
  rcases Plan.ends_lift_bind_iff.1 h with ⟨indexes, hindexes, h⟩ | ⟨e, -, rfl, rfl⟩
  swap
  · exact .inl ⟨rfl, by rintro r ⟨⟩⟩
  rw [keysOf_of_ok hindexes] at hold hnew
  dsimp only at h
  rw [← hold, ← hnew] at h
  rcases Plan.ends_bind_iff.1 h with ⟨current, s₁, hread, hgo⟩ | ⟨e, hread, rfl⟩ | ⟨hread, rfl⟩
  · obtain ⟨hsame, hcurrent⟩ := readPointers_ends hread
    have hresolved := hcurrent current rfl
    rw [hsame] at hgo
    have hcases : (s'.contents = s.contents ∧
          ∀ r, o = some (.ok r) → r = none ∧ ∀ key ∈ oldKeys, s.contents key = none) ∨
        ∃ id s₁, Chosen ids s oldKeys id ∧ s₁.contents = s.contents ∧
          (replace codec oldKeys newKeys current id new : Plan ν _).Ends mishaps ids s₁ o s' := by
      cases current with
      | cons first others =>
        obtain ⟨hfind, hkey⟩ := hresolved.find?_of_cons
        exact .inr ⟨first.2, s, .kept hfind hkey, rfl, hgo⟩
      | nil =>
        have hmissing := hresolved.eq_nil_iff.1 rfl
        cases newKeys with
        | nil =>
          obtain ⟨rfl, rfl⟩ := Plan.ends_pure_iff.1 hgo
          refine .inl ⟨rfl, fun r hr => ?_⟩
          cases hr
          exact ⟨rfl, hmissing⟩
        | cons key rest =>
          exact .inr ⟨ids s.minted, { s with minted := s.minted + 1 }, .minted hmissing rfl, rfl,
            Plan.ends_newId_bind_iff.1 hgo⟩
    rcases hcases with hsame | ⟨id, s₁, hchosen, hcontents, hreplace⟩
    · exact .inl hsame
    rcases replace_ends hresolved hcontents hreplace with
      ⟨hsame, hfails⟩ | ⟨payload, hpayload, hwrites⟩
    · exact .inl ⟨hsame, fun r hr => (hfails r hr).elim⟩
    · exact .inr ⟨id, payload,
        ⟨⟨indexes, hindexes⟩, hresolved.exists_toBytes, hchosen, hpayload⟩, hwrites⟩
  · obtain ⟨rfl, -⟩ := readPointers_ends hread
    exact .inl ⟨rfl, by rintro r ⟨⟩⟩
  · obtain ⟨rfl, -⟩ := readPointers_ends hread
    exact .inl ⟨rfl, by rintro r ⟨⟩⟩

/-- What an update leaves that succeeds and has an old pointer to start from. -/
theorem update_some {old new : Record} {r : Option RecordId} {oldKeys newKeys : List String}
    {first : String} (hold : oldKeys = keysOf config space definitions old)
    (hnew : newKeys = keysOf config space definitions new)
    (hfirst : oldKeys.find? (fun key => (s.contents key).isSome) = some first)
    (h : (update config codec space definitions old new : Plan ν _).Ends mishaps ids s
      (some (.ok r)) s') :
    ∃ id payload, r = some id ∧ s.contents first = some id.toBytes ∧
      codec.encode new = .ok payload ∧ s'.contents = Function.update
        ((s.contents.fill (staleKeys oldKeys newKeys) none).fill
          (freshKeys s.contents oldKeys newKeys id) (some id.toBytes)) id.payloadKey
        (some payload) := by
  have hthere : ¬ ∀ key ∈ oldKeys, s.contents key = none := by
    intro hmissing
    have hsome := List.find?_some hfirst
    rw [hmissing first (List.mem_of_find?_eq_some hfirst)] at hsome
    cases hsome
  rcases update_ends hold hnew h with ⟨-, hnone⟩ | ⟨id, payload, hready, hwrites⟩
  · exact (hthere (hnone r rfl).2).elim
  obtain ⟨hid, hafter⟩ := hwrites.of_ok
  cases hready.chosen with
  | kept hkept htarget =>
    obtain rfl := Option.some.inj (hfirst.symm.trans hkept)
    exact ⟨id, payload, hid, htarget, hready.encoded, hafter⟩
  | minted hmissing _ => exact (hthere hmissing).elim

end Cache

end QueryCache
