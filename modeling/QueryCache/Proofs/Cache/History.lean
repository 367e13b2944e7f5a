import QueryCache.Proofs.Cache.Lookup
import QueryCache.Proofs.Cache.Writes
import QueryCache.Proofs.Joined
import QueryCache.Query.Compiler

/-!
# Histories of a cache

Whatever happens to a cache, the entries of its store are of two kinds that never meet. A key with a
separator in it holds the bytes of an identifier; a key without one is an identifier, and holds a
record that was handed to the cache. So lookups always decode what they find. As long as no change
fails, each pointer leads to a payload as well.

## Main definitions

* `Cache.Change`, `Cache.History` : changes of cached records, and what they leave in a store that
  was empty.
* `Cache.Change.runAll` : runs changes in a world.
* `Cache.Sound`, `Cache.Complete` : what holds of the entries of a store.

## Main results

* `Cache.WritesEnd.sound`, `Cache.WritesEnd.complete` : what the writes of a change preserve.
* `Cache.History.of_runAll` : runs of changes have a history.
* `Cache.History.sound`, `Cache.History.complete` : what holds after any changes.
* `Cache.history_lookups` : what lookups find after any changes.
-/

namespace QueryCache

/-! ### Separators -/

theorem Query.separator_mem_pointerKey {space : KeySpace} {query : Query} {key : String}
    (h : query.pointerKey? space = some key) : '_' ∈ key.toList := by
  rw [pointerKey?] at h
  split at h
  · cases h
  · split at h
    · cases h
      exact space.separator_mem_indexKey _
    · cases h

namespace Cache

variable {ν : Type} {codec : Codec Record} {ids : Nat → RecordId} {mishaps : Mishaps}
  {s s' : Snapshot} {o : Option (Except Error (Option RecordId))}

theorem separator_mem_of_mem_keysOf {config : Config} {space : KeySpace} {definitions : List String}
    {record : Record} {key : String} (h : key ∈ keysOf config space definitions record) :
    '_' ∈ key.toList := by
  obtain ⟨-, -, -, values, -, rfl⟩ := mem_keysOf.1 h
  exact space.separator_mem_indexKey _

/-! ### Changes -/

/-- A change of the records in a cache. -/
inductive Change where
  | insert (config : Config) (space : KeySpace) (definitions : List String) (record : Record)
  | update (config : Config) (space : KeySpace) (definitions : List String) (old new : Record)

namespace Change

/-- The record that is to be cached. -/
def record : Change → Record
  | insert _ _ _ record => record
  | update _ _ _ _ new => new

/-- What the cache does. -/
def plan (codec : Codec Record) : Change → Plan ν (Option RecordId)
  | insert config space definitions record => Cache.insert config codec space definitions record
  | update config space definitions old new => Cache.update config codec space definitions old new

end Change

/-- Changes, the latest in front, each with its end. -/
abbrev Log := List (Change × Option (Except Error (Option RecordId)))

/-- Changes that were made to a cache whose store was empty at first, and what they leave behind.
Anything may have gone wrong with any of their calls. -/
inductive History (ν : Type) (codec : Codec Record) (ids : Nat → RecordId) : Log → Snapshot → Prop
  | start : History ν codec ids [] .empty
  | change {log s change o s'} (past : History ν codec ids log s)
      (ends : (change.plan codec : Plan ν _).Ends .always ids s o s') :
      History ν codec ids ((change, o) :: log) s'

section Runs

variable {σ : Type} [CacheStore σ]

/-- Runs changes in a world, the last of the list first, each in its own context. -/
def Change.runAll (env : Plan.Environment ν) (codec : Codec Record) :
    List (Context × Change) → World σ → Log × World σ
  | [], w => ([], w)
  | (context, change) :: earlier, w =>
    let (log, w) := runAll env codec earlier w
    let (o, w) := (change.plan codec).run { env with context := context } w
    ((change, o) :: log, w)

/-- Whatever changes are run in a world with an empty store, they are a history of the cache. -/
theorem History.of_runAll [LawfulStore σ] (env : Plan.Environment ν) (codec : Codec Record)
    {w : World σ} (hempty : w.snapshot = .empty) (changes : List (Context × Change)) :
    History ν codec env.ids (Change.runAll env codec changes w).1
      (Change.runAll env codec changes w).2.snapshot := by
  induction changes with
  | nil =>
    rw [Change.runAll, hempty]
    exact .start
  | cons entry earlier ih =>
    cases hrun : (entry.2.plan codec).run { env with context := entry.1 }
        (Change.runAll env codec earlier w).2 with
    | mk o w' =>
      have hall : Change.runAll env codec (entry :: earlier) w =
          ((entry.2, o) :: (Change.runAll env codec earlier w).1, w') := by
        rw [Change.runAll]
        simp only [hrun]
      have hends := Plan.ends_of_run Mishaps.covers_always hrun
      rw [hall]
      exact .change ih hends

end Runs

/-! ### Sound stores -/

/-- A store holds pointers under keys with a separator, and given records under all others. What the
pointers name has no separator. -/
structure Sound (codec : Codec Record) (records : List Record) (m : Contents) : Prop where
  pointer : ∀ {key bytes}, m key = some bytes → '_' ∈ key.toList →
    ∃ id : RecordId, '_' ∉ id.text.toList ∧ bytes = id.toBytes
  payload : ∀ {key bytes}, m key = some bytes → '_' ∉ key.toList →
    ∃ record ∈ records, codec.encode record = .ok bytes

namespace Sound

variable {records : List Record} {m : Contents} {id : RecordId}

theorem empty : Sound codec [] fun _ => none where
  pointer h := nomatch h
  payload h := nomatch h

theorem cons (h : Sound codec records m) (record : Record) : Sound codec (record :: records) m where
  pointer := h.pointer
  payload hkey hnot :=
    let ⟨old, hold, hencode⟩ := h.payload hkey hnot
    ⟨old, List.mem_cons_of_mem _ hold, hencode⟩

theorem fill_none (h : Sound codec records m) (keys : List String) :
    Sound codec records (m.fill keys none) where
  pointer {key bytes} hkey hmem := by
    by_cases hin : key ∈ keys
    · cases (m.fill_of_mem none hin).symm.trans hkey
    · exact h.pointer ((m.fill_of_notMem none hin).symm.trans hkey) hmem
  payload {key bytes} hkey hnot := by
    by_cases hin : key ∈ keys
    · cases (m.fill_of_mem none hin).symm.trans hkey
    · exact h.payload ((m.fill_of_notMem none hin).symm.trans hkey) hnot

theorem fill_toBytes (h : Sound codec records m) {keys : List String}
    (hkeys : ∀ key ∈ keys, '_' ∈ key.toList) (hid : '_' ∉ id.text.toList) :
    Sound codec records (m.fill keys (some id.toBytes)) where
  pointer {key bytes} hkey hmem := by
    by_cases hin : key ∈ keys
    · exact ⟨id, hid, Option.some.inj (hkey.symm.trans (m.fill_of_mem _ hin))⟩
    · exact h.pointer ((m.fill_of_notMem _ hin).symm.trans hkey) hmem
  payload {key bytes} hkey hnot :=
    have hin : key ∉ keys := fun hin => hnot (hkeys key hin)
    h.payload ((m.fill_of_notMem _ hin).symm.trans hkey) hnot

theorem update_payload (h : Sound codec records m) {record : Record} {payload : ByteArray}
    (hid : '_' ∉ id.text.toList) (hpayload : codec.encode record = .ok payload) :
    Sound codec (record :: records) (Function.update m id.payloadKey (some payload)) where
  pointer {key bytes} hkey hmem := by
    have hne : key ≠ id.payloadKey := by
      rintro rfl
      exact hid hmem
    exact h.pointer ((Function.update_of_ne hne _ _).symm.trans hkey) hmem
  payload {key bytes} hkey hnot := by
    by_cases heq : key = id.payloadKey
    · subst heq
      rw [Function.update_self] at hkey
      cases hkey
      exact ⟨record, List.mem_cons_self, hpayload⟩
    · exact (h.cons record).payload ((Function.update_of_ne heq _ _).symm.trans hkey) hnot

/-- What a pointer names has no separator. -/
theorem notMem_of_pointer (h : Sound codec records m) {key : String} (hkey : '_' ∈ key.toList)
    (hpointer : m key = some id.toBytes) : '_' ∉ id.text.toList := by
  obtain ⟨id', hid', hbytes⟩ := h.pointer hpointer hkey
  obtain rfl := RecordId.toBytes_injective hbytes
  exact hid'

/-- An identifier that an update writes under has no separator. -/
theorem notMem_of_chosen (h : Sound codec records s.contents)
    (hids : ∀ n, '_' ∉ (ids n).text.toList) {oldKeys : List String}
    (hold : ∀ key ∈ oldKeys, '_' ∈ key.toList) (hchosen : Chosen ids s oldKeys id) :
    '_' ∉ id.text.toList := by
  cases hchosen with
  | kept first target => exact h.notMem_of_pointer (hold _ (List.mem_of_find?_eq_some first)) target
  | minted _ new =>
    rw [new]
    exact hids _

end Sound

/-- **Writes keep a store sound**, wherever they are cut short. -/
theorem WritesEnd.sound {records : List Record} {before after : Contents}
    {stale fresh : List String} {id : RecordId} {record : Record} {payload : ByteArray}
    (h : WritesEnd mishaps before stale fresh id payload o after)
    (hsound : Sound codec records before) (hfresh : ∀ key ∈ fresh, '_' ∈ key.toList)
    (hid : '_' ∉ id.text.toList) (hpayload : codec.encode record = .ok payload) :
    Sound codec (record :: records) after := by
  cases h with
  | settled => exact ((hsound.fill_none stale).fill_toBytes hfresh hid).update_payload hid hpayload
  | removing _ sub => exact (hsound.fill_none _).cons record
  | writing _ sub =>
    exact ((hsound.fill_none stale).fill_toBytes (fun key hkey => hfresh key (sub hkey)) hid).cons
      record

/-- **A change keeps a store sound**, however it ends. -/
theorem Change.sound {records : List Record} {change : Change}
    (hids : ∀ n, '_' ∉ (ids n).text.toList) (hsound : Sound codec records s.contents)
    (h : (change.plan codec : Plan ν _).Ends mishaps ids s o s') :
    Sound codec (change.record :: records) s'.contents := by
  cases change with
  | insert config space definitions record =>
    rcases insert_ends h with ⟨hsame, -⟩ | ⟨payload, hpayload, -, hwrites⟩
    · rw [hsame]
      exact hsound.cons record
    · exact hwrites.sound hsound (fun key hkey => separator_mem_of_mem_keysOf hkey) (hids _)
        hpayload
  | update config space definitions old new =>
    rcases update_ends rfl rfl h with ⟨hsame, -⟩ | ⟨id, payload, hready, hwrites⟩
    · rw [hsame]
      exact hsound.cons new
    · refine hwrites.sound hsound (fun key hkey => ?_) ?_ hready.encoded
      · exact separator_mem_of_mem_keysOf (freshKeys_subset _ _ _ _ hkey)
      · exact hsound.notMem_of_chosen hids (fun key hkey => separator_mem_of_mem_keysOf hkey)
          hready.chosen

/-- **Every store with a history is sound** for the records that were handed to the cache. -/
theorem History.sound {log : Log}
    (hids : ∀ n, '_' ∉ (ids n).text.toList) (h : History ν codec ids log s) :
    Sound codec (log.map fun entry => entry.1.record) s.contents := by
  induction h with
  | start => exact .empty
  | change _ ends ih => exact Change.sound hids ih ends

/-! ### Complete stores -/

/-- Every pointer leads to a payload. -/
def Complete (m : Contents) : Prop :=
  ∀ (key : String) (id : RecordId), m key = some id.toBytes → '_' ∈ key.toList →
    ∃ payload, m id.payloadKey = some payload

/-- **Writes that are all made keep a store complete.** -/
theorem WritesEnd.complete {records : List Record} {before after : Contents}
    {stale fresh : List String} {id : RecordId} {payload : ByteArray} {r : Option RecordId}
    (h : WritesEnd mishaps before stale fresh id payload (some (.ok r)) after)
    (hsound : Sound codec records before) (hcomplete : Complete before)
    (hstale : ∀ key ∈ stale, '_' ∈ key.toList) (hfresh : ∀ key ∈ fresh, '_' ∈ key.toList)
    (hid : '_' ∉ id.text.toList) : Complete after := by
  obtain ⟨-, rfl⟩ := h.of_ok
  intro key target hkey hmem
  have hne : key ≠ id.payloadKey := by
    rintro rfl
    exact hid hmem
  by_cases htarget : target = id
  · exact ⟨payload, by rw [htarget, Function.update_self]⟩
  rw [Function.update_of_ne hne] at hkey
  -- A pointer to another identifier has not been written now, so it was there before.
  have hnotFresh : key ∉ fresh := by
    intro hin
    rw [Contents.fill_of_mem _ _ hin] at hkey
    exact htarget (RecordId.toBytes_injective (Option.some.inj hkey)).symm
  have hnotStale : key ∉ stale := by
    intro hin
    rw [Contents.fill_of_notMem _ _ hnotFresh, Contents.fill_of_mem _ _ hin] at hkey
    cases hkey
  rw [Contents.fill_of_notMem _ _ hnotFresh, Contents.fill_of_notMem _ _ hnotStale] at hkey
  obtain ⟨old, hold⟩ := hcomplete _ _ hkey hmem
  have hseparator : '_' ∉ target.payloadKey.toList := hsound.notMem_of_pointer hmem hkey
  have hother : target.payloadKey ≠ id.payloadKey :=
    fun heq => htarget (congrArg RecordId.mk heq)
  refine ⟨old, ?_⟩
  rw [Function.update_of_ne hother,
    Contents.fill_of_notMem _ _ fun hin => hseparator (hfresh _ hin),
    Contents.fill_of_notMem _ _ fun hin => hseparator (hstale _ hin), hold]

/-- **A change that succeeds keeps a store complete.** -/
theorem Change.complete {records : List Record} {change : Change} {r : Option RecordId}
    (hids : ∀ n, '_' ∉ (ids n).text.toList) (hsound : Sound codec records s.contents)
    (hcomplete : Complete s.contents)
    (h : (change.plan codec : Plan ν _).Ends mishaps ids s (some (.ok r)) s') :
    Complete s'.contents := by
  have hkeys {config : Config} {space : KeySpace} {definitions : List String} {record : Record} :
      ∀ key ∈ keysOf config space definitions record, '_' ∈ key.toList :=
    fun _ => separator_mem_of_mem_keysOf
  cases change with
  | insert config space definitions record =>
    rcases insert_ends h with ⟨hsame, -⟩ | ⟨payload, hpayload, -, hwrites⟩
    · rw [hsame]
      exact hcomplete
    · exact hwrites.complete hsound hcomplete (fun key hkey => nomatch hkey) hkeys (hids _)
  | update config space definitions old new =>
    rcases update_ends rfl rfl h with ⟨hsame, -⟩ | ⟨id, payload, hready, hwrites⟩
    · rw [hsame]
      exact hcomplete
    · exact hwrites.complete hsound hcomplete
        (fun key hkey => hkeys key (staleKeys_subset _ _ hkey))
        (fun key hkey => hkeys key (freshKeys_subset _ _ _ _ hkey))
        (hsound.notMem_of_chosen hids hkeys hready.chosen)

/-- **A store is complete as long as all changes succeed.** -/
theorem History.complete {log : Log}
    (hids : ∀ n, '_' ∉ (ids n).text.toList) (h : History ν codec ids log s)
    (hok : ∀ entry ∈ log, ∃ r, entry.2 = some (.ok r)) : Complete s.contents := by
  induction h with
  | start => exact fun _ _ hkey => nomatch hkey
  | change past ends ih =>
    obtain ⟨r, rfl⟩ := hok _ List.mem_cons_self
    have hcomplete := ih fun entry hentry => hok entry (List.mem_cons_of_mem _ hentry)
    exact Change.complete hids (past.sound hids) hcomplete ends

/-! ### Lookups -/

/-- In a sound store a query leads to nothing or to one of the records. -/
theorem Sound.foundBy {records : List Record} {m : Contents} (h : Sound codec records m)
    (hcodec : ∀ record ∈ records, ∀ payload, codec.encode record = .ok payload →
      codec.decode payload = .ok record) (space : KeySpace) (query : Query) :
    foundBy codec space query m = .ok none ∨
      ∃ record ∈ records, foundBy codec space query m = .ok (some record) := by
  rw [Cache.foundBy]
  cases hpointer : query.pointerKey? space with
  | none => exact .inl rfl
  | some key =>
    cases hkey : m key with
    | none => exact .inl (by simp only [found, hkey])
    | some bytes =>
      obtain ⟨id, hid, rfl⟩ := h.pointer hkey (query.separator_mem_pointerKey hpointer)
      cases hpayload : m id.payloadKey with
      | none => exact .inl (found_eq_none hkey hpayload)
      | some payload =>
        obtain ⟨record, hrecord, hencode⟩ := h.payload hpayload hid
        exact .inr ⟨record, hrecord, found_eq_some hkey hpayload (hcodec _ hrecord _ hencode)⟩

/-- **What lookups find after any changes** that started with an empty store, whatever went wrong
with which of their calls. Let new identifiers have no separator, and let the codec decode what it
encodes of the records that were handed over.

Unless the store itself answers a lookup's call with a decoding error, no lookup ends with one, and
what a lookup finds is a record that was handed over: inserted, or the new version in an update. If
all changes succeeded, every pointer in the store names an identifier with a payload. -/
theorem history_lookups {log : Log}
    (hids : ∀ n, '_' ∉ (ids n).text.toList)
    (hcodec : ∀ entry ∈ log, ∀ payload, codec.encode entry.1.record = .ok payload →
      codec.decode payload = .ok entry.1.record)
    (h : History ν codec ids log s) :
    (∀ {mishaps : Mishaps} {space : KeySpace} {query : Query}
        {o : Option (Except Error (Option Record))} {s' : Snapshot},
      (∀ c key reason, ¬ mishaps c (some (.decode key reason))) →
      (lookupByEquality codec space query : Plan ν _).Ends mishaps ids s o s' →
        (∀ key reason, o ≠ some (.error (.cache (.decode key reason)))) ∧
          ∀ record, o = some (.ok (some record)) → ∃ entry ∈ log, entry.1.record = record) ∧
    ((∀ entry ∈ log, ∃ r, entry.2 = some (.ok r)) →
      ∀ (space : KeySpace) (values : String) (bytes : ByteArray),
        s.contents (space.indexKey values) = some bytes →
          ∃ (id : RecordId) (payload : ByteArray), bytes = id.toBytes ∧
            s.contents id.payloadKey = some payload) := by
  have hsound := h.sound hids
  refine ⟨fun {mishaps space query o s'} hstore hlookup => ?_,
    fun hok space values bytes hbytes => ?_⟩
  · obtain ⟨-, rfl | ⟨key, c, -, fault, hfault, rfl⟩⟩ := lookupByEquality_ends hlookup
    · have hrecords : ∀ record ∈ log.map (fun entry => entry.1.record), ∀ payload,
          codec.encode record = .ok payload → codec.decode payload = .ok record := by
        intro record hrecord
        obtain ⟨entry, hentry, rfl⟩ := List.mem_map.1 hrecord
        exact hcodec entry hentry
      rcases hsound.foundBy hrecords space query with hnone | ⟨record, hrecord, hsome⟩
      · rw [hnone]
        exact ⟨fun key reason => by simp, fun record => by simp⟩
      · rw [hsome]
        refine ⟨fun key reason => by simp, fun record' hrecord' => ?_⟩
        cases hrecord'
        exact List.mem_map.1 hrecord
    · refine ⟨fun key reason hdecode => ?_, fun record hrecord => ?_⟩
      · cases fault with
        | none => cases hdecode
        | some e =>
          cases hdecode
          exact hstore c key reason hfault
      · cases fault <;> cases hrecord
  · have hseparator := space.separator_mem_indexKey values
    obtain ⟨id, -, rfl⟩ := hsound.pointer hbytes hseparator
    obtain ⟨payload, hpayload⟩ := h.complete hids hok _ id hbytes hseparator
    exact ⟨id, payload, rfl, hpayload⟩

/-- No limits, and identifiers that grow by one letter. -/
def growingIds : Plan.Environment Empty where
  context := {}
  timeout := none
  ids n := ⟨String.ofList (List.replicate (n + 1) 'r')⟩
  primary _ := .ok none

/-- An empty cache whose store refuses the fourth write. -/
def fourthWriteRefused : World FaultyStore where
  now := 0
  gate := Gate.ofCapacity 1
  store := { faults := [{ on := .set, nth := some 4, error := .transport "down" }] }

/-- A record is inserted, and then one of its values changes. -/
def mailChanges : List (Context × Change) :=
  [({}, .update {} ⟨"app", "users"⟩ ["mail"] [("mail", .str "a")] [("mail", .str "b")]),
    ({}, .insert {} ⟨"app", "users"⟩ ["mail"] [("mail", .str "a")])]

/-- If the payload of the new version is refused, the new pointer leads to the old payload: a lookup
by the new value finds the record as it was inserted. Before that, the pointer of the inserted
record leads to its payload. -/
theorem history_lookups_old_version : ∃ (log : Log) (w₁ w₂ : World FaultyStore) (q : Query),
    Change.runAll growingIds Codec.record mailChanges.tail fourthWriteRefused = (log.tail, w₁) ∧
    (∃ (id : RecordId) (payload : ByteArray), "r".toUTF8 = id.toBytes ∧
      w₁.contents id.payloadKey = some payload) ∧
    Change.runAll growingIds Codec.record mailChanges fourthWriteRefused = (log, w₂) ∧
    Compiler.compile ⟨.relational, "?"⟩ (.equal "mail" (.str "b")) = .ok q ∧
    (lookupByEquality Codec.record ⟨"app", "users"⟩ q : Plan Empty _).Ends .never growingIds.ids
      w₂.snapshot (some (.ok (some [("mail", .str "a")]))) w₂.snapshot ∧
    ∃ entry ∈ log, entry.1.record = [("mail", .str "a")] := by
  have hids : ∀ n, '_' ∉ (growingIds.ids n).text.toList := fun n => by simp [growingIds]
  have hdecode : ∀ mail ∈ ["b", "a"], ∀ payload,
      Codec.record.encode [("mail", .str mail)] = .ok payload →
        Codec.record.decode payload = .ok [("mail", .str mail)] := by
    intro mail hmail payload hpayload
    cases hpayload
    rcases List.mem_pair.1 hmail with rfl | rfl
    · cbv
    · cbv
  obtain ⟨inserted, updated, o, w₁, w₂, hinserted, hupdated, hrun₁, hrun₂⟩ :
      ∃ (inserted updated : Change) (o : Option (Except Error (Option RecordId)))
        (w₁ w₂ : World FaultyStore),
        inserted.record = [("mail", .str "a")] ∧ updated.record = [("mail", .str "b")] ∧
        Change.runAll growingIds Codec.record mailChanges.tail fourthWriteRefused =
          ([(inserted, some (.ok (some ⟨"r"⟩)))], w₁) ∧
        Change.runAll growingIds Codec.record mailChanges fourthWriteRefused =
          ([(updated, o), (inserted, some (.ok (some ⟨"r"⟩)))], w₂) :=
    ⟨_, _, _, _, _, rfl, rfl, rfl, rfl⟩
  obtain ⟨q, hq⟩ : ∃ q, Compiler.compile ⟨.relational, "?"⟩ (.equal "mail" (.str "b")) = .ok q :=
    ⟨_, rfl⟩
  have hlookup : (lookupByEquality Codec.record ⟨"app", "users"⟩ q : Plan Empty _).Ends .never
      growingIds.ids w₂.snapshot (some (.ok (some [("mail", .str "a")]))) w₂.snapshot := by
    have hpointer : w₂.contents "app_users_b" = some (RecordId.toBytes ⟨"r"⟩) := by
      cases hrun₂
      rfl
    have hpayload : w₂.contents "r" = some (Record.toJson [("mail", .str "a")]).render.toUTF8 := by
      cases hrun₂
      rfl
    refine lookupByEquality_ends_never_iff.2 ⟨congrArg some ?_, rfl⟩
    cases hq
    exact (found_eq_some hpointer hpayload (hdecode "a" (by decide) _ rfl)).symm
  have hbefore := History.of_runAll growingIds Codec.record rfl mailChanges.tail
    (w := fourthWriteRefused)
  have hafter := History.of_runAll growingIds Codec.record rfl mailChanges (w := fourthWriteRefused)
  rw [hrun₁] at hbefore
  rw [hrun₂] at hafter
  refine ⟨[_, _], w₁, w₂, q, hrun₁, ?_, hrun₂, hq, hlookup, ?_⟩
  · refine (history_lookups hids (fun entry hentry payload => ?_) hbefore).2
      (fun entry hentry => ?_) ⟨"app", "users"⟩ "a" _ ?_
    · rw [List.mem_singleton.1 hentry, hinserted]
      exact hdecode "a" (by decide) payload
    · exact ⟨_, by rw [List.mem_singleton.1 hentry]⟩
    · cases hrun₁
      rfl
  · refine ((history_lookups hids (fun entry hentry payload => ?_) hafter).1 (fun _ _ _ h => h)
      hlookup).2 _ rfl
    rcases List.mem_pair.1 hentry with rfl | rfl
    · rw [hupdated]
      exact hdecode "b" (by decide) payload
    · rw [hinserted]
      exact hdecode "a" (by decide) payload

end Cache

end QueryCache
