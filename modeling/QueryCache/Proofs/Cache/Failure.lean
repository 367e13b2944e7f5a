import QueryCache.Proofs.Cache.Writes

/-!
# What failing calls leave behind

There is no transaction over several keys: a call that fails may have written something. How much is
limited by the order of the phases, whatever call goes wrong, and in whatever order those that run
together are answered. A failing insert leaves pointers that lead nowhere. A failing update leaves
the payload as it was, and pointers only to the identifier whose payload this is.

## Main definitions

* `Cache.StopsWriting` : an end that a call that writes is to blame for.

## Main results

* `Cache.failure_leaves` : what a failing insert leaves, and a failing update.
-/

namespace QueryCache.Cache

variable {ν : Type} {config : Config} {codec : Codec Record} {space : KeySpace}
  {definitions : List String} {mishaps : Mishaps} {ids : Nat → RecordId} {s s' : Snapshot}
  {e : Error}

/-- A plan that ends because something goes wrong with a call that writes. -/
def StopsWriting (mishaps : Mishaps) {α : Type} (o : Option (Except Error α)) : Prop :=
  ∃ kind ≠ .get, StopsAt mishaps kind o

/-- No plan stops while it writes with an error with which only reading goes wrong. -/
theorem not_stopsWriting {α : Type}
    (h : ∀ c fault, mishaps c (some fault) → e = .cache fault → c.kind = .get) :
    ¬ StopsWriting (α := α) mishaps (some (.error e)) := by
  rintro ⟨kind, hkind, c, rfl, c', hc', fault, hfault, he⟩
  obtain rfl := List.mem_singleton.1 hc'
  cases fault with
  | none => cases he
  | some fault =>
    cases he
    exact hkind (h c' fault hfault rfl)

/-- Writes that fail have been cut short. -/
theorem WritesEnd.of_error {before after : Contents} {stale fresh : List String} {id : RecordId}
    {payload : ByteArray}
    (h : WritesEnd mishaps before stale fresh id payload (some (.error e)) after) :
    StopsWriting (α := Option RecordId) mishaps (some (.error e)) ∧
      ((∃ removed ⊆ stale, after = before.fill removed none) ∨
        ∃ written ⊆ fresh, after = (before.fill stale none).fill written (some id.toBytes)) := by
  generalize ho : (some (.error e) : Option (Except Error (Option RecordId))) = o at h
  cases h with
  | settled => cases ho
  | removing stop sub => exact ⟨⟨.delete, by decide, stop⟩, .inl ⟨_, sub, rfl⟩⟩
  | writing stop sub => exact ⟨⟨.set, by decide, stop⟩, .inr ⟨_, sub, rfl⟩⟩

/-- **A failing insert** leaves some of its pointers and no payload. -/
theorem insert_error {record : Record}
    (h : (insert config codec space definitions record : Plan ν _).Ends mishaps ids s
      (some (.error e)) s') :
    s'.contents = s.contents ∨
      (∃ payload, codec.encode record = .ok payload) ∧
        StopsWriting (α := Option RecordId) mishaps (some (.error e)) ∧
          ∃ written ⊆ keysOf config space definitions record,
            s'.contents = s.contents.fill written (some (ids s.minted).toBytes) := by
  rcases insert_ends h with ⟨hsame, -⟩ | ⟨payload, hpayload, -, hwrites⟩
  · exact .inl hsame
  obtain ⟨hstop, ⟨removed, hsub, hafter⟩ | ⟨written, hsub, hafter⟩⟩ := hwrites.of_error
  · rw [List.subset_nil.1 hsub, Contents.fill_nil] at hafter
    exact .inl hafter
  · rw [Contents.fill_nil] at hafter
    exact .inr ⟨⟨payload, hpayload⟩, hstop, written, hsub, hafter⟩

/-- **A failing update** leaves some stale pointers removed, or all of them and some new ones
written. -/
theorem update_error {old new : Record} {oldKeys newKeys : List String}
    (hold : oldKeys = keysOf config space definitions old)
    (hnew : newKeys = keysOf config space definitions new)
    (h : (update config codec space definitions old new : Plan ν _).Ends mishaps ids s
      (some (.error e)) s') :
    s'.contents = s.contents ∨ ∃ id payload,
      Ready config codec definitions ids s oldKeys new id payload ∧
        StopsWriting (α := Option RecordId) mishaps (some (.error e)) ∧
          ((∃ removed ⊆ staleKeys oldKeys newKeys, s'.contents = s.contents.fill removed none) ∨
            ∃ written ⊆ freshKeys s.contents oldKeys newKeys id,
              s'.contents = (s.contents.fill (staleKeys oldKeys newKeys) none).fill written
                (some id.toBytes)) := by
  rcases update_ends hold hnew h with ⟨hsame, -⟩ | ⟨id, payload, hready, hwrites⟩
  · exact .inl hsame
  · exact .inr ⟨id, payload, hready, hwrites.of_error⟩

/-- **What failing calls leave behind**, whatever goes wrong with which of their calls to the store,
and in whatever order those are answered that run together.

An insert leaves nothing but its identifier under some of its own keys, and nothing under the
identifier, if that is neither one of the keys nor in use. An update leaves the payload under its
identifier as it was, if this is not one of the keys; it has removed some of the stale pointers, or
all of them and written some of those that do not name the identifier yet. Neither leaves anything
if the definitions or the payload are refused, an old pointer is no text, or the error is one with
which only reading goes wrong. -/
theorem failure_leaves :
    (∀ {record : Record} {keys : List String} {id : RecordId},
      (insert config codec space definitions record : Plan ν _).Ends mishaps ids s
        (some (.error e)) s' →
      keys = keysOf config space definitions record → id = ids s.minted →
        ((∃ written ⊆ keys, s'.contents = s.contents.fill written (some id.toBytes)) ∧
          (id.payloadKey ∉ keys → s.contents id.payloadKey = none →
            s'.contents id.payloadKey = none)) ∧
        ((∃ cause, indexesOf config definitions = .error cause) ∨
            (∃ reason, codec.encode record = .error reason) ∨
              (∀ c fault, mishaps c (some fault) → e = .cache fault → c.kind = .get) →
          s'.contents = s.contents)) ∧
    ∀ {old new : Record} {oldKeys newKeys stale : List String},
      (update config codec space definitions old new : Plan ν _).Ends mishaps ids s
        (some (.error e)) s' →
      oldKeys = keysOf config space definitions old →
      newKeys = keysOf config space definitions new → stale = staleKeys oldKeys newKeys →
        (s'.contents = s.contents ∨ ∃ id, Chosen ids s oldKeys id ∧
          (id.payloadKey ∉ oldKeys → id.payloadKey ∉ newKeys →
            s'.contents id.payloadKey = s.contents id.payloadKey) ∧
          ((∃ removed ⊆ stale, s'.contents = s.contents.fill removed none) ∨
            ∃ written ⊆ freshKeys s.contents oldKeys newKeys id,
              s'.contents = (s.contents.fill stale none).fill written (some id.toBytes))) ∧
        ((∃ cause, indexesOf config definitions = .error cause) ∨
            (∃ reason, codec.encode new = .error reason) ∨
              (∃ key ∈ oldKeys, ∃ bytes, s.contents key = some bytes ∧
                ∀ id : RecordId, bytes ≠ id.toBytes) ∨
                (∀ c fault, mishaps c (some fault) → e = .cache fault → c.kind = .get) →
          s'.contents = s.contents) := by
  refine ⟨fun {record keys id} h hkeys hid => ?_,
    fun {old new oldKeys newKeys stale} h hold hnew hstale => ?_⟩
  · subst hkeys hid
    rcases insert_error h with hsame | ⟨⟨payload, hpayload⟩, hstop, written, hsub, hafter⟩
    · refine ⟨⟨⟨[], List.nil_subset _, hsame⟩, fun _ hunused => ?_⟩, fun _ => hsame⟩
      rw [hsame, hunused]
    · refine ⟨⟨⟨written, hsub, hafter⟩, fun hnot hunused => ?_⟩, ?_⟩
      · rw [hafter, Contents.fill_of_notMem _ _ fun hmem => hnot (hsub hmem), hunused]
      · rintro (⟨cause, hcause⟩ | ⟨reason, hreason⟩ | hreading)
        · rw [keysOf, hcause] at hsub
          rw [hafter, List.subset_nil.1 hsub, Contents.fill_nil]
        · cases hpayload.symm.trans hreason
        · exact (not_stopsWriting hreading hstop).elim
  · subst hstale
    rcases update_error hold hnew h with hsame | ⟨id, payload, hready, hstop, hwrites⟩
    · exact ⟨.inl hsame, fun _ => hsame⟩
    · refine ⟨.inr ⟨id, hready.chosen, fun hnotOld hnotNew => ?_, hwrites⟩, ?_⟩
      · have hnotStale : id.payloadKey ∉ staleKeys oldKeys newKeys :=
          fun hmem => hnotOld (staleKeys_subset _ _ hmem)
        rcases hwrites with ⟨removed, hsub, hafter⟩ | ⟨written, hsub, hafter⟩
        · rw [hafter, Contents.fill_of_notMem _ _ fun hmem => hnotStale (hsub hmem)]
        · have hnotWritten : id.payloadKey ∉ written :=
            fun hmem => hnotNew (freshKeys_subset _ _ _ _ (hsub hmem))
          rw [hafter, Contents.fill_of_notMem _ _ hnotWritten,
            Contents.fill_of_notMem _ _ hnotStale]
      · rintro (⟨cause, hcause⟩ | ⟨reason, hreason⟩ | ⟨key, hkey, bytes, hbytes, hnone⟩ | hreading)
        · obtain ⟨indexes, hindexes⟩ := hready.limits
          cases hcause.symm.trans hindexes
        · cases hready.encoded.symm.trans hreason
        · obtain ⟨target, htarget⟩ := hready.readable key hkey bytes hbytes
          exact (hnone target htarget).elim
        · exact (not_stopsWriting hreading hstop).elim

/-- A store that holds a record under `r0`, with one pointer, and refuses the second write. -/
def secondWriteRefused : World FaultyStore where
  now := 0
  gate := Gate.ofCapacity 1
  store := {
    inner := ⟨⟨{ entries := [("app_users_t1", RecordId.toBytes ⟨"r0"⟩), ("r0", "{}".toUTF8)] }⟩, []⟩
    faults := [{ on := .set, nth := some 2, error := .transport "down" }] }

/-- An insert whose second write is refused leaves one pointer and no payload. An update whose
second write is refused leaves no stale pointer, and the old payload. -/
theorem failure_leaves_second_write : ∃ w₁ w₂ : World FaultyStore,
    (insert {} Codec.record ⟨"app", "users"⟩ ["tenant", "email"]
      [("email", .str "b"), ("tenant", .str "t2")] : Plan Empty _).run
        ⟨{}, none, fun _ => ⟨"r1"⟩, fun _ => .ok none⟩ secondWriteRefused =
        (some (.error (.cache (.transport "down"))), w₁) ∧
      w₁.contents "app_users_t2" = some (RecordId.toBytes ⟨"r1"⟩) ∧ w₁.contents "r1" = none ∧
    (update {} Codec.record ⟨"app", "users"⟩ ["tenant", "email"]
      [("email", .str "a"), ("tenant", .str "t1")] [("email", .str "b"), ("tenant", .str "t2")] :
      Plan Empty _).run ⟨{}, none, fun _ => ⟨"r1"⟩, fun _ => .ok none⟩ secondWriteRefused =
        (some (.error (.cache (.transport "down"))), w₂) ∧
      w₂.contents "app_users_t1" = none ∧ w₂.contents "r0" = some "{}".toUTF8 := by
  obtain ⟨w₁, hinsert⟩ : ∃ w₁ : World FaultyStore,
      (insert {} Codec.record ⟨"app", "users"⟩ ["tenant", "email"]
        [("email", .str "b"), ("tenant", .str "t2")] : Plan Empty _).run
          ⟨{}, none, fun _ => ⟨"r1"⟩, fun _ => .ok none⟩ secondWriteRefused =
          (some (.error (.cache (.transport "down"))), w₁) := ⟨_, rfl⟩
  obtain ⟨w₂, hupdate⟩ : ∃ w₂ : World FaultyStore,
      (update {} Codec.record ⟨"app", "users"⟩ ["tenant", "email"]
        [("email", .str "a"), ("tenant", .str "t1")] [("email", .str "b"), ("tenant", .str "t2")] :
        Plan Empty _).run ⟨{}, none, fun _ => ⟨"r1"⟩, fun _ => .ok none⟩ secondWriteRefused =
          (some (.error (.cache (.transport "down"))), w₂) := ⟨_, rfl⟩
  have hold : ["app_users_t1", "app_users_a"] = keysOf {} ⟨"app", "users"⟩ ["tenant", "email"]
      [("email", .str "a"), ("tenant", .str "t1")] := by rfl
  have hnew : ["app_users_t2", "app_users_b"] = keysOf {} ⟨"app", "users"⟩ ["tenant", "email"]
      [("email", .str "b"), ("tenant", .str "t2")] := by rfl
  have hinsertEnds := Plan.ends_of_run Mishaps.covers_always hinsert
  have hupdateEnds := Plan.ends_of_run Mishaps.covers_always hupdate
  obtain ⟨⟨-, hnone⟩, -⟩ := failure_leaves.1 hinsertEnds hnew rfl
  obtain ⟨hwrites, -⟩ := failure_leaves.2 hupdateEnds hold hnew rfl
  have hpayload : w₂.contents "r0" = some "{}".toUTF8 := by
    rcases hwrites with hsame | ⟨id, hchosen, hsame, -⟩
    · exact congrFun hsame "r0"
    · rcases hchosen with ⟨hfirst, htarget⟩ | ⟨hmissing, -⟩
      · obtain rfl := Option.some.inj (show some "app_users_t1" = some _ from hfirst)
        have hid : RecordId.toBytes ⟨"r0"⟩ = id.toBytes := Option.some.inj htarget
        obtain rfl := RecordId.toBytes_injective hid
        exact hsame (by decide) (by decide)
      · cases hmissing "app_users_t1" (.head _)
  refine ⟨w₁, w₂, hinsert, ?_, hnone (by decide) rfl, hupdate, ?_, hpayload⟩
  · cases hinsert
    rfl
  · cases hupdate
    rfl

end QueryCache.Cache
