import QueryCache.Proofs.Cache.Pointers

/-!
# Updates of cached records

An update that succeeds moves the pointers of a record to where its new version has its places. The
identifier is kept if some old pointer is there; what else the store holds is left as it was.

## Main definitions

* `Cache.Repointed` : pointers have been moved to an identifier, and nothing else has changed.

## Main results

* `Cache.replace_ok` : what the store holds after pointers and payload are replaced.
* `Cache.update_cases` : the ways in which an update succeeds.
* `Cache.update_repoints` : what an update returns, and what the store holds after it.
-/

namespace QueryCache.Cache

variable {ν σ : Type} [CacheStore σ] [LawfulStore σ] {env : Plan.Environment ν} {w w' : World σ}
  {codec : Codec Record} {space : KeySpace}

theorem encode_eq_ok {α : Type} {codec : Codec α} {value : α} {payload : ByteArray}
    (h : encode codec value = .ok payload) : codec.encode value = .ok payload := by
  rw [encode] at h
  split at h
  · cases h
    assumption
  · cases h

/-- **Replacing pointers and payload** removes the old keys that are no new ones, sets the new ones
that do not name the identifier yet, and the payload at last. -/
theorem replace_ok {oldKeys newKeys : List String} {current : List (String × RecordId)}
    {id : RecordId} {record : Record} {r : Option RecordId}
    (h : (replace codec oldKeys newKeys current id record : Plan ν _).Succeeds env w r w') :
    r = some id ∧ w.SameCounts w' ∧ ∃ payload, codec.encode record = .ok payload ∧
      ∀ key, w'.contents key =
        if key = id.payloadKey then some payload
        else if key ∈ newKeys ∧ current.lookup key ≠ some id then some id.toBytes
        else if key ∈ oldKeys ∧ key ∉ newKeys then none
        else w.contents key := by
  obtain ⟨payload, w₁, hlift, h⟩ := Plan.succeeds_bind_iff.1 h
  obtain ⟨hpayload, rfl⟩ := Plan.succeeds_lift_iff.1 hlift
  obtain ⟨_, w₂, hdelete, h⟩ := Plan.succeeds_bind_iff.1 h
  obtain ⟨_, w₃, hset, h⟩ := Plan.succeeds_bind_iff.1 h
  obtain ⟨_, w₄, hwrite, h⟩ := Plan.succeeds_bind_iff.1 h
  obtain ⟨rfl, rfl⟩ := Plan.succeeds_pure_iff.1 h
  obtain ⟨hdeleted, hcounts⟩ := hdelete.of_deleteAll
  obtain ⟨hpointers, hcounts'⟩ := hset.of_setAll
  obtain ⟨hwritten, hcounts''⟩ := hwrite.of_set
  refine ⟨rfl, (hcounts.trans hcounts').trans hcounts'', payload, encode_eq_ok hpayload, ?_⟩
  intro key
  rw [hwritten, Function.update_apply, hpointers, hdeleted]
  simp only [List.mem_filter, bne_iff_ne, Bool.not_eq_true', List.contains_eq_mem,
    decide_eq_false_iff_not]

/-- The pointers under old keys have been moved to new keys, and to an identifier with a payload.
Nothing else has changed. -/
structure Repointed (before after : Contents) (oldKeys newKeys : List String) (id : RecordId)
    (payload : ByteArray) : Prop where
  new : ∀ key ∈ newKeys, after key = some id.toBytes
  stale : ∀ key ∈ oldKeys, key ∉ newKeys → after key = none
  payload : after id.payloadKey = some payload
  other : ∀ key, key ∉ oldKeys → key ∉ newKeys → key ≠ id.payloadKey → after key = before key

/-- Pointers that are not written because they name the identifier already are there. -/
theorem repointed_of_resolved {before after : Contents} {oldKeys newKeys : List String}
    {current : List (String × RecordId)} {id : RecordId} {payload : ByteArray}
    (hresolved : Resolved before oldKeys current)
    (hafter : ∀ key, after key =
      if key = id.payloadKey then some payload
      else if key ∈ newKeys ∧ current.lookup key ≠ some id then some id.toBytes
      else if key ∈ oldKeys ∧ key ∉ newKeys then none
      else before key)
    (hold : id.payloadKey ∉ oldKeys) (hnew : id.payloadKey ∉ newKeys) :
    Repointed before after oldKeys newKeys id payload where
  new key hkey := by
    have hne : key ≠ id.payloadKey := fun heq => hnew (heq ▸ hkey)
    rw [hafter, if_neg hne]
    by_cases hlookup : current.lookup key = some id
    · rw [if_neg (fun hwrite => hwrite.2 hlookup), if_neg (fun hstale => hstale.2 hkey)]
      exact (hresolved.of_lookup hlookup).1
    · rw [if_pos ⟨hkey, hlookup⟩]
  stale key hkey hstale := by
    have hne : key ≠ id.payloadKey := fun heq => hold (heq ▸ hkey)
    rw [hafter, if_neg hne, if_neg (fun hwrite => hstale hwrite.1), if_pos ⟨hkey, hstale⟩]
  payload := by rw [hafter, if_pos rfl]
  other key holdKey hnewKey hne := by
    rw [hafter, if_neg hne, if_neg (fun hwrite => hnewKey hwrite.1),
      if_neg (fun hstale => holdKey hstale.1)]

/-- **The ways in which an update with definitions succeeds**, once it has read the old pointers: it
replaces them under the identifier of the first, does nothing if there is neither a pointer nor a
new key, or puts the record under a new identifier. -/
theorem update_cases {config : Config} {definitions : List String}
    {indexes : List CompositeIndex} {old new : Record} {r : Option RecordId}
    (hdefinitions : definitions ≠ []) (hindexes : indexesOf config definitions = .ok indexes)
    (h : (update config codec space definitions old new : Plan ν _).Succeeds env w r w') :
    ∃ current w₁, Resolved w.contents (pointerKeys space indexes old) current ∧
      w₁.contents = w.contents ∧ w.SameCounts w₁ ∧
      ((∃ key id others, current = (key, id) :: others ∧
          (replace codec (pointerKeys space indexes old) (pointerKeys space indexes new) current id
            new : Plan ν _).Succeeds env w₁ r w') ∨
        (current = [] ∧ pointerKeys space indexes new = [] ∧ r = none ∧ w' = w₁) ∨
        current = [] ∧ pointerKeys space indexes new ≠ [] ∧
          (replace codec (pointerKeys space indexes old) (pointerKeys space indexes new) []
            (env.ids w₁.minted) new : Plan ν _).Succeeds env { w₁ with minted := w₁.minted + 1 } r
              w') := by
  rw [update, if_neg (by simpa using hdefinitions)] at h
  obtain ⟨_, _, hlift, h⟩ := Plan.succeeds_bind_iff.1 h
  obtain ⟨hsame, rfl⟩ := Plan.succeeds_lift_iff.1 hlift
  obtain rfl : indexes = _ := Except.ok.inj (hindexes.symm.trans hsame)
  obtain ⟨current, w₁, hread, h⟩ := Plan.succeeds_bind_iff.1 h
  obtain ⟨hresolved, hcontents, hcounts⟩ := readPointers_ok hread
  refine ⟨current, w₁, hresolved, hcontents, hcounts, ?_⟩
  cases current with
  | cons first others => exact .inl ⟨first.1, first.2, others, rfl, h⟩
  | nil =>
    cases hnew : pointerKeys space indexes new with
    | nil =>
      rw [hnew] at h
      obtain ⟨rfl, rfl⟩ := Plan.succeeds_pure_iff.1 h
      exact .inr (.inl ⟨rfl, rfl, rfl, rfl⟩)
    | cons newKey rest =>
      rw [hnew] at h
      obtain ⟨id, _, hmint, h⟩ := Plan.succeeds_bind_iff.1 h
      obtain ⟨rfl, rfl⟩ := hmint.of_newId
      exact .inr (.inr ⟨rfl, List.cons_ne_nil _ _, h⟩)

/-- **An update repoints a record.** Let an update succeed, whatever the store held. It returns
nothing exactly if there are no definitions, or no old pointer is there and the new version has no
place; then the store holds what it held and no identifier has been minted. Otherwise it returns the
identifier under the first old key that has a value, or a new one if there is none. Unless this
identifier is the text of one of the keys, all new keys name it then, the other old keys are gone,
the payload is that of the new version, and all other keys are as before. The keys of a record are
distinct, and there is one for each index whose fields the record has all. -/
theorem update_repoints {config : Config} {definitions : List String}
    {indexes : List CompositeIndex} {old new : Record} {r : Option RecordId}
    {oldKeys newKeys : List String}
    (hindexes : indexesOf config definitions = .ok indexes)
    (holdKeys : oldKeys = pointerKeys space indexes old)
    (hnewKeys : newKeys = pointerKeys space indexes new)
    (h : (update config codec space definitions old new).run env w = (some (.ok r), w')) :
    (∀ record, (pointerKeys space indexes record).Nodup ∧
      ∀ key, key ∈ pointerKeys space indexes record ↔ ∃ index ∈ indexes, ∃ values,
        index.fields.mapM (fun field => record.lookup field) = some values ∧
          key = space.database ++ "_" ++ space.entity ++ "_" ++
            "_".intercalate (values.map Json.token)) ∧
    (r = none ↔ definitions = [] ∨ (∀ key ∈ oldKeys, w.contents key = none) ∧ newKeys = []) ∧
    (r = none → w'.contents = w.contents ∧ w'.minted = w.minted) ∧
    ∀ id, r = some id →
      ((∃ key, oldKeys.find? (fun key => (w.contents key).isSome) = some key ∧
          w.contents key = some id.toBytes ∧ w'.minted = w.minted) ∨
        (∀ key ∈ oldKeys, w.contents key = none) ∧ id = env.ids w.minted ∧
          w'.minted = w.minted + 1) ∧
      (id.payloadKey ∉ oldKeys → id.payloadKey ∉ newKeys → ∃ payload,
        codec.encode new = .ok payload ∧
          Repointed w.contents w'.contents oldKeys newKeys id payload) := by
  refine ⟨fun record => ⟨nodup_pointerKeys space indexes record, fun key =>
    mem_pointerKeys space indexes record⟩, ?_⟩
  by_cases hdefinitions : definitions = []
  · subst hdefinitions
    cases h
    exact ⟨⟨fun _ => .inl rfl, fun _ => rfl⟩, fun _ => ⟨rfl, rfl⟩, fun id hid => nomatch hid⟩
  obtain ⟨current, w₁, hresolved, hcontents, hcounts, hcases⟩ :=
    update_cases hdefinitions hindexes h
  rw [← holdKeys] at hresolved hcases
  rw [← hnewKeys] at hcases
  rcases hcases with ⟨key, id, others, rfl, hreplace⟩ | ⟨rfl, hnil, rfl, rfl⟩ | ⟨rfl, hne, hreplace⟩
  · obtain ⟨rfl, hcounts', payload, hpayload, hafter⟩ := replace_ok hreplace
    rw [hcontents] at hafter
    obtain ⟨hfind, hkey⟩ := hresolved.find?_of_cons
    have hthere : ¬ ∀ key ∈ oldKeys, w.contents key = none := fun hall =>
      nomatch hresolved.eq_nil_iff.2 hall
    refine ⟨⟨fun hr => (nomatch hr), fun hr => ?_⟩, fun hr => (nomatch hr), fun id' hid' => ?_⟩
    · exact (hr.elim hdefinitions fun hr => hthere hr.1).elim
    · obtain rfl := Option.some.inj hid'
      exact ⟨.inl ⟨key, hfind, hkey, (hcounts.trans hcounts').minted⟩, fun hold hnew =>
        ⟨payload, hpayload, repointed_of_resolved hresolved hafter hold hnew⟩⟩
  · have hmissing := hresolved.eq_nil_iff.1 rfl
    exact ⟨⟨fun _ => .inr ⟨hmissing, hnil⟩, fun _ => rfl⟩, fun _ => ⟨hcontents, hcounts.minted⟩,
      fun id hid => nomatch hid⟩
  · have hmissing := hresolved.eq_nil_iff.1 rfl
    obtain ⟨rfl, hcounts', payload, hpayload, hafter⟩ := replace_ok hreplace
    have hbefore : World.contents { w₁ with minted := w₁.minted + 1 } = w.contents := hcontents
    have hminted : w'.minted = w.minted + 1 := by rw [hcounts'.minted, hcounts.minted]
    rw [hbefore] at hafter
    refine ⟨⟨fun hr => (nomatch hr), fun hr => ?_⟩, fun hr => (nomatch hr), fun id' hid' => ?_⟩
    · exact (hr.elim hdefinitions fun hr => hne hr.2).elim
    · obtain rfl := Option.some.inj hid'
      exact ⟨.inr ⟨hmissing, by rw [hcounts.minted], hminted⟩, fun hold hnew =>
        ⟨payload, hpayload, repointed_of_resolved hresolved hafter hold hnew⟩⟩

/-- The pointer of one index moves, and the identifier stays. -/
theorem update_repoints_kept : ∃ w' : World MemoryStore,
    (update {} Codec.record ⟨"app", "users"⟩ ["tenant"] [("tenant", .str "t1")]
      [("tenant", .str "t2")] : Plan Empty _).run ⟨{}, none, fun _ => ⟨"r1"⟩, fun _ => .ok none⟩
        { now := 0, gate := Gate.ofCapacity 1,
          store := ⟨{ entries := [("app_users_t1", RecordId.toBytes ⟨"r0"⟩)] }⟩ } =
        (some (.ok (some ⟨"r0"⟩)), w') ∧
      w'.contents "app_users_t1" = none ∧
      w'.contents "app_users_t2" = some (RecordId.toBytes ⟨"r0"⟩) := by
  obtain ⟨w', h⟩ : ∃ w' : World MemoryStore,
      (update {} Codec.record ⟨"app", "users"⟩ ["tenant"] [("tenant", .str "t1")]
        [("tenant", .str "t2")] : Plan Empty _).run ⟨{}, none, fun _ => ⟨"r1"⟩, fun _ => .ok none⟩
          { now := 0, gate := Gate.ofCapacity 1,
            store := ⟨{ entries := [("app_users_t1", RecordId.toBytes ⟨"r0"⟩)] }⟩ } =
          (some (.ok (some ⟨"r0"⟩)), w') := ⟨_, rfl⟩
  have hold : ["app_users_t1"] =
      pointerKeys ⟨"app", "users"⟩ [⟨"tenant", ["tenant"]⟩] [("tenant", .str "t1")] := by rfl
  have hnew : ["app_users_t2"] =
      pointerKeys ⟨"app", "users"⟩ [⟨"tenant", ["tenant"]⟩] [("tenant", .str "t2")] := by rfl
  obtain ⟨-, -, -, hsome⟩ := update_repoints rfl hold hnew h
  obtain ⟨-, hrepointed⟩ := hsome _ rfl
  obtain ⟨payload, -, hafter⟩ := hrepointed (by decide) (by decide)
  exact ⟨w', h, hafter.stale _ (.head _) (by decide), hafter.new _ (.head _)⟩

end QueryCache.Cache
