import QueryCache.Proofs.Cache.Pointers
import QueryCache.Proofs.Plan.Refinement

/-!
# What lookups find

A lookup by equality reads two entries: the pointer under the query's values, and the payload that
the pointer leads to. Unless one of the two readings goes wrong, what it finds is a function of what
the store holds.

## Main definitions

* `Query.pointerKey?` : where a lookup looks.
* `Cache.found`, `Cache.foundBy` : what a pointer leads to, and what a query leads to.

## Main results

* `Cache.lookupByEquality_ends` : how a lookup ends.
* `Cache.lookupByEquality_ends_never_iff` : a lookup that is answered finds what the query leads to.
-/

namespace QueryCache

/-- The key under which a lookup by equality looks; there is none for a query that is not made of
equalities alone. -/
def Query.pointerKey? (space : KeySpace) (query : Query) : Option String :=
  match query.signature? with
  | none => none
  | some signature =>
    if signature.defaultCacheable then some (space.indexKey signature.cacheValue) else none

namespace Cache

variable {ν α : Type} {codec : Codec α} {space : KeySpace} {query : Query} {mishaps : Mishaps}
  {ids : Nat → RecordId} {s s' : Snapshot}

/-- What the pointer under a key leads to; nothing if the pointer or its payload is missing. -/
def found (codec : Codec α) (m : Contents) (key : String) : Except Error (Option α) :=
  match m key with
  | none => .ok none
  | some bytes =>
    match pointerTarget key bytes with
    | .error e => .error (.cache e)
    | .ok id =>
      match m id.payloadKey with
      | none => .ok none
      | some payload =>
        match decode codec id.payloadKey payload with
        | .error e => .error (.cache e)
        | .ok value => .ok (some value)

/-- What a query by equality leads to. -/
def foundBy (codec : Codec α) (space : KeySpace) (query : Query) (m : Contents) :
    Except Error (Option α) :=
  match query.pointerKey? space with
  | none => .ok none
  | some key => found codec m key

/-! ### Reading a pointer -/

theorem pointerTarget_toBytes (key : String) (id : RecordId) :
    pointerTarget key id.toBytes = .ok id := by
  rw [pointerTarget, RecordId.toBytes, Utf8.decode_toUTF8]

theorem decode_eq_ok {key : String} {payload : ByteArray} {value : α}
    (h : codec.decode payload = .ok value) : decode codec key payload = .ok value := by
  rw [decode, h]

/-- A pointer to an identifier leads to the identifier's payload. -/
theorem found_eq_some {m : Contents} {key : String} {id : RecordId} {payload : ByteArray}
    {value : α} (hkey : m key = some id.toBytes) (hpayload : m id.payloadKey = some payload)
    (hdecode : codec.decode payload = .ok value) : found codec m key = .ok (some value) := by
  simp only [found, hkey, pointerTarget_toBytes, hpayload, decode_eq_ok hdecode]

theorem found_eq_none {m : Contents} {key : String} {id : RecordId}
    (hkey : m key = some id.toBytes) (hpayload : m id.payloadKey = none) :
    found codec m key = .ok none := by
  simp only [found, hkey, pointerTarget_toBytes, hpayload]

/-- What is found is the payload of the identifier that the pointer names. -/
theorem exists_of_found {m : Contents} {key : String} {value : α}
    (h : found codec m key = .ok (some value)) : ∃ (id : RecordId) (payload : ByteArray),
      m key = some id.toBytes ∧ m id.payloadKey = some payload ∧
        codec.decode payload = .ok value := by
  rw [found] at h
  split at h
  · cases h
  next bytes hkey =>
    split at h
    · cases h
    next id htarget =>
      split at h
      · cases h
      next payload hpayload =>
        split at h
        · cases h
        next value' hvalue =>
          cases h
          rw [decode] at hvalue
          split at hvalue
          next hdecode =>
            cases hvalue
            rw [← toBytes_of_pointerTarget htarget] at hkey
            exact ⟨id, payload, hkey, hpayload, hdecode⟩
          next => cases hvalue

/-! ### Lookups -/

/-- A lookup reads the query's pointer, if it has one, and the payload that this names. -/
theorem lookupByEquality_eq : (lookupByEquality codec space query : Plan ν _) =
    match query.pointerKey? space with
    | none => pure none
    | some key => Plan.get key >>= fun pointer =>
      match pointer with
      | none => pure none
      | some bytes => Plan.lift .cache (pointerTarget key bytes) >>= fun id =>
        Plan.get id.payloadKey >>= fun payload =>
          match payload with
          | none => pure none
          | some payload => Plan.lift .cache (decode codec id.payloadKey payload) >>= fun value =>
            pure (some value) := by
  rw [lookupByEquality, Query.pointerKey?]
  cases query.signature? with
  | none => rfl
  | some signature =>
    cases hcacheable : signature.defaultCacheable <;> simp only [hcacheable] <;> rfl

/-- **How a lookup ends**: with what the query leads to, or because reading goes wrong. It changes
nothing. -/
theorem lookupByEquality_ends {o : Option (Except Error (Option α))}
    (h : (lookupByEquality codec space query : Plan ν _).Ends mishaps ids s o s') :
    s' = s ∧ (o = some (foundBy codec space query s.contents) ∨
      ∃ key, mishaps.Stop [.get key] o) := by
  rw [lookupByEquality_eq] at h
  rw [foundBy]
  cases hkey : query.pointerKey? space with
  | none =>
    rw [hkey] at h
    obtain ⟨rfl, rfl⟩ := Plan.ends_pure_iff.1 h
    exact ⟨rfl, .inl rfl⟩
  | some key =>
    rw [hkey] at h
    rcases Plan.ends_get_bind_iff.1 h with h | ⟨hstop, rfl⟩
    swap
    · exact ⟨rfl, .inr ⟨key, hstop⟩⟩
    simp only [found]
    cases hpointer : s.contents key with
    | none =>
      rw [hpointer] at h
      obtain ⟨rfl, rfl⟩ := Plan.ends_pure_iff.1 h
      exact ⟨rfl, .inl rfl⟩
    | some bytes =>
      rw [hpointer] at h
      rcases Plan.ends_lift_bind_iff.1 h with ⟨id, htarget, h⟩ | ⟨e, htarget, rfl, rfl⟩
      swap
      · exact ⟨rfl, .inl (by simp only [htarget])⟩
      simp only [htarget]
      rcases Plan.ends_get_bind_iff.1 h with h | ⟨hstop, rfl⟩
      swap
      · exact ⟨rfl, .inr ⟨_, hstop⟩⟩
      cases hpayload : s.contents id.payloadKey with
      | none =>
        rw [hpayload] at h
        obtain ⟨rfl, rfl⟩ := Plan.ends_pure_iff.1 h
        exact ⟨rfl, .inl rfl⟩
      | some payload =>
        rw [hpayload] at h
        rcases Plan.ends_lift_bind_iff.1 h with ⟨value, hvalue, h⟩ | ⟨e, hvalue, rfl, rfl⟩
        · obtain ⟨rfl, rfl⟩ := Plan.ends_pure_iff.1 h
          exact ⟨rfl, .inl (by simp only [hvalue])⟩
        · exact ⟨rfl, .inl (by simp only [hvalue])⟩

/-- **A lookup that is answered** ends with what the query leads to. -/
theorem lookupByEquality_ends_never_iff {o : Option (Except Error (Option α))} :
    (lookupByEquality codec space query : Plan ν _).Ends .never ids s o s' ↔
      o = some (foundBy codec space query s.contents) ∧ s' = s := by
  refine Plan.ends_never_iff fun o s' h => ?_
  obtain ⟨hsame, hfound | ⟨key, hstop⟩⟩ := lookupByEquality_ends h
  · exact ⟨hfound, hsame⟩
  · exact (Mishaps.not_stop_never hstop).elim

/-- A lookup through a pointer to a payload that can be decoded. -/
theorem lookupByEquality_ends_some {key : String} {id : RecordId} {payload : ByteArray} {value : α}
    (hquery : query.pointerKey? space = some key) (hkey : s.contents key = some id.toBytes)
    (hpayload : s.contents id.payloadKey = some payload)
    (hdecode : codec.decode payload = .ok value) :
    (lookupByEquality codec space query : Plan ν _).Ends .never ids s (some (.ok (some value)))
      s := by
  refine lookupByEquality_ends_never_iff.2 ⟨congrArg some ?_, rfl⟩
  rw [foundBy, hquery]
  exact (found_eq_some hkey hpayload hdecode).symm

/-- A lookup is answered if its readings are: the one of the pointer, and the one of the payload. -/
theorem lookupByEquality_answered {σ : Type} [CacheStore σ] {env : Plan.Environment ν}
    {w w₁ : World σ} {key : String} {pointer : Option ByteArray}
    (hkey : query.pointerKey? space = some key)
    (hpointer : w.guarded (env.contextAt w.now) (.get key) = (some (.ok pointer), w₁))
    (hpayload : ∀ id : RecordId, pointer = some id.toBytes →
      ∃ (payload : Option ByteArray) (w₂ : World σ),
        w₁.guarded (env.contextAt w₁.now) (.get id.payloadKey) = (some (.ok payload), w₂)) :
    (lookupByEquality codec space query).Answered env w := by
  rw [lookupByEquality_eq]
  simp only [hkey]
  refine ⟨pointer, w₁, hpointer, ?_⟩
  cases pointer with
  | none => trivial
  | some bytes =>
    refine Plan.answered_lift_bind fun id htarget => ?_
    obtain ⟨payload, w₂, hget⟩ := hpayload id (by rw [toBytes_of_pointerTarget htarget])
    refine ⟨payload, w₂, hget, ?_⟩
    cases payload with
    | none => trivial
    | some payload => exact Plan.answered_lift_bind fun _ _ => trivial

end Cache

end QueryCache
