import QueryCache.Cache
import QueryCache.Proofs.Plan.Run

/-!
# Pointers

The keys of the pointers to a record are distinct, and each belongs to an index in which the record
has a place. Reading the pointers under some keys finds the identifiers whose bytes are stored
there, and fails where the bytes are no text.

## Main definitions

* `Cache.Resolved` : the pointers that are there under some keys.

## Main results

* `Cache.nodup_pointerKeys`, `Cache.mem_pointerKeys` : the keys of the pointers to a record.
* `Cache.readPointers_ok` : what reading pointers finds.
-/

namespace QueryCache.Cache

/-! ### Keys -/

theorem nodup_eraseDups (keys : List String) : keys.eraseDups.Nodup := by
  generalize hn : keys.length = n
  induction n using Nat.strongRecOn generalizing keys with
  | ind n ih =>
    cases keys with
    | nil => exact .nil
    | cons key rest =>
      rw [List.eraseDups_cons, List.nodup_cons]
      have hlength := List.length_filter_le (fun b => !b == key) rest
      rw [List.length_cons] at hn
      refine ⟨?_, ih _ (by omega) _ rfl⟩
      intro hmem
      rw [List.mem_eraseDups] at hmem
      simp at hmem

variable (space : KeySpace) (indexes : List CompositeIndex) (record : Record)

/-- The keys of the pointers to a record are distinct. -/
theorem nodup_pointerKeys : (pointerKeys space indexes record).Nodup := nodup_eraseDups _

/-- A record has a pointer for each index whose fields it has all, under the tokens of their
values. -/
theorem mem_pointerKeys {key : String} : key ∈ pointerKeys space indexes record ↔
    ∃ index ∈ indexes, ∃ values,
      index.fields.mapM (fun field => record.lookup field) = some values ∧
      key = space.indexKey (keySeparator.intercalate (values.map Json.token)) := by
  have htokens (fields : List String) :
      (fields.mapM fun field => (record.lookup field).map Json.token) =
        (fields.mapM fun field => record.lookup field).map (List.map Json.token) := by
    induction fields with
    | nil => rfl
    | cons field rest ih =>
      rw [List.mapM_cons, List.mapM_cons, ih]
      cases record.lookup field with
      | none => rfl
      | some value => cases rest.mapM fun field => record.lookup field <;> rfl
  rw [pointerKeys, List.mem_eraseDups, List.mem_map]
  simp only [List.mem_filterMap, CompositeIndex.valuesKey?, htokens, Option.map_map,
    Option.map_eq_some_iff]
  constructor
  · rintro ⟨_, ⟨index, hindex, values, hvalues, rfl⟩, rfl⟩
    exact ⟨index, hindex, values, hvalues, rfl⟩
  · rintro ⟨index, hindex, values, hvalues, rfl⟩
    exact ⟨_, ⟨index, hindex, values, hvalues, rfl⟩, rfl⟩

/-! ### Targets -/

theorem toUTF8_of_decode {bytes : ByteArray} {text : String} (h : Utf8.decode bytes = .ok text) :
    text.toUTF8 = bytes := by
  rw [Utf8.decode, String.fromUTF8?] at h
  split at h
  next text' hsome =>
    cases h
    split at hsome
    · cases hsome
      rfl
    · cases hsome
  next => cases h

/-- The bytes of a pointer are those of the identifier that it names. -/
theorem toBytes_of_pointerTarget {key : String} {bytes : ByteArray} {id : RecordId}
    (h : pointerTarget key bytes = .ok id) : id.toBytes = bytes := by
  rw [pointerTarget] at h
  split at h
  next text htext =>
    cases h
    exact toUTF8_of_decode htext
  next => cases h

/-- The pointers that are there under some keys, in the order of the keys. -/
inductive Resolved (m : Contents) : List String → List (String × RecordId) → Prop
  | nil : Resolved m [] []
  | missing {key keys current} (h : m key = none) (rest : Resolved m keys current) :
      Resolved m (key :: keys) current
  | found {key keys current} {id : RecordId} (h : m key = some id.toBytes)
      (rest : Resolved m keys current) : Resolved m (key :: keys) ((key, id) :: current)

namespace Resolved

variable {m : Contents} {keys : List String} {current : List (String × RecordId)}

theorem eq_nil_iff (h : Resolved m keys current) : current = [] ↔ ∀ key ∈ keys, m key = none := by
  induction h with
  | nil => simp
  | missing h _ ih => simp [ih, h]
  | found h _ _ => simp [h]

/-- The first pointer that is there is under the first key that has a value. -/
theorem find?_of_cons {key : String} {id : RecordId} {others : List (String × RecordId)}
    (h : Resolved m keys ((key, id) :: others)) :
    keys.find? (fun k => (m k).isSome) = some key ∧ m key = some id.toBytes := by
  generalize hcurrent : (key, id) :: others = current at h
  induction h with
  | nil => cases hcurrent
  | missing h _ ih =>
    obtain ⟨hfind, hkey⟩ := ih hcurrent
    exact ⟨by rw [List.find?_cons_of_neg (by simp [h]), hfind], hkey⟩
  | found h _ _ =>
    cases hcurrent
    exact ⟨List.find?_cons_of_pos (by simp [h]), h⟩

/-- A pointer that is there names its target and is under one of the keys. -/
theorem of_lookup {key : String} {id : RecordId} (h : Resolved m keys current)
    (hkey : current.lookup key = some id) : m key = some id.toBytes ∧ key ∈ keys := by
  induction h with
  | nil => cases hkey
  | missing _ _ ih =>
    obtain ⟨hm, hmem⟩ := ih hkey
    exact ⟨hm, List.mem_cons_of_mem _ hmem⟩
  | @found k keys current id' h _ ih =>
    rw [Assoc.lookup_cons] at hkey
    split at hkey
    next heq =>
      cases hkey
      exact ⟨heq ▸ h, heq ▸ List.mem_cons_self⟩
    next =>
      obtain ⟨hm, hmem⟩ := ih hkey
      exact ⟨hm, List.mem_cons_of_mem _ hmem⟩

end Resolved

section Reading

variable {ν σ : Type} [CacheStore σ] [LawfulStore σ] {env : Plan.Environment ν} {w w' : World σ}

/-- **Reading pointers** finds those that are there and changes nothing. -/
theorem readPointers_ok {keys : List String} {current : List (String × RecordId)}
    (h : (readPointers keys : Plan ν _).Succeeds env w current w') :
    Resolved w.contents keys current ∧ w'.contents = w.contents ∧ w.SameCounts w' := by
  induction keys generalizing current w with
  | nil =>
    obtain ⟨rfl, rfl⟩ := Plan.succeeds_pure_iff.1 h
    exact ⟨.nil, rfl, ⟨rfl, rfl⟩⟩
  | cons key rest ih =>
    obtain ⟨reply, w₁, hget, hgo⟩ := Plan.succeeds_bind_iff.1 h
    obtain ⟨hreply, hcontents, hcounts⟩ := hget.of_get
    cases reply with
    | none =>
      obtain ⟨hresolved, hrest, hcounts'⟩ := ih hgo
      rw [hcontents] at hresolved hrest
      exact ⟨.missing hreply.symm hresolved, hrest, hcounts.trans hcounts'⟩
    | some bytes =>
      obtain ⟨id, w₂, hlift, hgo⟩ := Plan.succeeds_bind_iff.1 hgo
      obtain ⟨htarget, rfl⟩ := Plan.succeeds_lift_iff.1 hlift
      obtain ⟨others, w₃, hothers, hdone⟩ := Plan.succeeds_bind_iff.1 hgo
      obtain ⟨rfl, rfl⟩ := Plan.succeeds_pure_iff.1 hdone
      obtain ⟨hresolved, hrest, hcounts'⟩ := ih hothers
      rw [hcontents] at hresolved hrest
      have hkey : w.contents key = some id.toBytes := by
        rw [← hreply, toBytes_of_pointerTarget htarget]
      exact ⟨.found hkey hresolved, hrest, hcounts.trans hcounts'⟩

end Reading

end QueryCache.Cache
