import QueryCache.Proofs.Cache.Insert
import QueryCache.Proofs.Fanout.Waves
import QueryCache.Proofs.Plan.Steps

/-!
# Inserts into a slow store

The pointers of an insert are written together, as many at a time as the gate has units. Each write
has its own time limit, and all of them begin when the insert begins; so the time that a write
waits for a unit counts against its limit. The payload is written after the pointers, with a time
limit that begins then.

## Main definitions

* `Answer.written` : the answer to a call that sets a value.
* `SlowStore.Written` : what calls leave that set a value under keys, and the time they take.

## Main results

* `SlowStore.setAll_written`, `SlowStore.setAll_written_timeout` : values that are set together, in
  time and not in time.
* `Cache.insert_slow` : how long an insert into a slow store takes, and what it leaves.
-/

namespace QueryCache

/-- The answer to a call that sets a value. -/
def Answer.written (value : ByteArray) (key : String) : Answer := ⟨.set key value, .ok ()⟩

/-! ### A slow store -/

theorem SlowStore.call_answers (c : Call) (s : Logged SlowStore) :
    ∃ reply, (CacheStore.call c s).1 = .ok reply := ⟨_, rfl⟩

/-- Setting one value under several keys. -/
theorem SlowStore.callAll_set (keys : List String) (value : ByteArray) (s : Logged SlowStore) :
    (World.callAll (keys.map fun key => .set key value) s).answers =
        s.answers ++ keys.map (Answer.written value) ∧
      LawfulStore.contents (World.callAll (keys.map fun key => .set key value) s) =
        (LawfulStore.contents s).fill keys (some value) ∧
      CacheStore.delay (World.callAll (keys.map fun key => .set key value) s) =
        CacheStore.delay s := by
  induction keys generalizing s with
  | nil => exact ⟨(List.append_nil _).symm, rfl, rfl⟩
  | cons key rest ih =>
    obtain ⟨hanswers, hcontents, hdelay⟩ := ih (CacheStore.call (.set key value) s).2
    refine ⟨?_, ?_, hdelay⟩
    · exact hanswers.trans (List.append_assoc _ _ _)
    · have hfirst : LawfulStore.contents (CacheStore.call (.set key value) s).2 =
          Function.update (LawfulStore.contents s) key (some value) :=
        (congrArg Prod.snd (LawfulStore.call_ok (s := s) (c := .set key value) rfl)).symm
      rw [hfirst, Contents.fill_update] at hcontents
      exact hcontents

/-- As many waves as are needed: before the last one something is left, and after it nothing. -/
theorem exists_waves {n capacity : Nat} (hn : 1 ≤ n) (hcapacity : 1 ≤ capacity) :
    ∃ k, n ⌈/⌉ capacity = k + 1 ∧ k * capacity < n ∧ n ≤ (k + 1) * capacity := by
  have hle (k : Nat) : n ⌈/⌉ capacity ≤ k ↔ n ≤ k * capacity := by
    rw [ceilDiv_le_iff_le_mul hcapacity, Nat.mul_comm]
  have hpos : n ⌈/⌉ capacity ≠ 0 := by
    intro hzero
    have hnone := (hle 0).1 (Nat.le_of_eq hzero)
    omega
  obtain ⟨k, hk⟩ := Nat.exists_eq_succ_of_ne_zero hpos
  refine ⟨k, hk, Nat.lt_of_not_le fun hmore => ?_, (hle (k + 1)).1 (Nat.le_of_eq hk)⟩
  have hless := (hle k).2 hmore
  omega

/-- The waves that are ready before a moment that comes no later than the last one. -/
theorem waves_before {n capacity delay timeout : Nat} (hn : 1 ≤ n) (hcapacity : 1 ≤ capacity)
    (hdelay : 1 ≤ delay) (hpositive : 1 ≤ timeout) (h : timeout ≤ n ⌈/⌉ capacity * delay) :
    (timeout - 1) / delay * delay < timeout ∧ timeout ≤ ((timeout - 1) / delay + 1) * delay ∧
      (timeout - 1) / delay * capacity < n := by
  obtain ⟨k, hceil, hlower, -⟩ := exists_waves hn hcapacity
  rw [hceil] at h
  have hbefore := Nat.div_mul_le_self (timeout - 1) delay
  have hafter := Nat.lt_div_mul_add hdelay (a := timeout - 1)
  refine ⟨by omega, by rw [Nat.succ_mul]; omega, ?_⟩
  have hwaves : (timeout - 1) / delay ≤ k := by
    rw [← Nat.lt_succ_iff, Nat.div_lt_iff_lt_mul hdelay]
    exact Nat.lt_of_lt_of_le (Nat.sub_one_lt_of_lt hpositive) h
  exact Nat.lt_of_le_of_lt (Nat.mul_le_mul_right _ hwaves) hlower

/-- A context whose only limit is a time from now on. -/
theorem Context.lt_deadline_of_limit {limit : Option Nat} {now elapsed : Nat}
    (h : ∀ timeout ∈ limit, elapsed < timeout) :
    ∀ deadline ∈ (⟨limit.map (now + ·), none⟩ : Context).deadline, now + elapsed < deadline := by
  intro deadline hdeadline
  obtain ⟨timeout, htimeout, rfl⟩ := Option.mem_map.1 hdeadline
  exact Nat.add_lt_add_left (h timeout htimeout) _

namespace SlowStore

/-- A value has been set under keys, one after the other, and some time has passed. -/
structure Written (value : ByteArray) (keys : List String) (elapsed : Nat)
    (w w' : World (Logged SlowStore)) : Prop where
  gate : w'.gate = w.gate
  now : w'.now = w.now + elapsed
  answers : w'.store.answers = w.store.answers ++ keys.map (Answer.written value)
  contents : w'.contents = w.contents.fill keys (some value)
  delay : w'.store.inner.delay = w.store.inner.delay

/-- The calls that set a value under keys. -/
theorem written_of_callAll {keys : List String} {value : ByteArray} {elapsed : Nat}
    {w w' : World (Logged SlowStore)}
    (hstore : w'.store = World.callAll (keys.map fun key => .set key value) w.store)
    (hgate : w'.gate = w.gate) (hnow : w'.now = w.now + elapsed) :
    Written value keys elapsed w w' := by
  obtain ⟨hanswers, hcontents, hdelay⟩ := callAll_set keys value w.store
  rw [← hstore] at hanswers hcontents hdelay
  exact ⟨hgate, hnow, hanswers, hcontents, hdelay⟩

variable {keys : List String} {limit : Option Nat} {timeout : Nat}
  {w : World (Logged SlowStore)}

/-- **Values are set in time** if the last wave is ready before the time is up. -/
theorem setAll_written (value : ByteArray) (hvacant : w.gate.Vacant)
    (hdelay : 1 ≤ w.store.inner.delay) (hkeys : 1 ≤ keys.length) (htime : ∀ timeout ∈ limit,
      keys.length ⌈/⌉ w.gate.capacity * w.store.inner.delay < timeout) :
    ∃ w', w.guardedAll ⟨limit.map (w.now + ·), none⟩ (keys.map fun key => .set key value) =
        (some (.ok ()), w') ∧
      Written value keys (keys.length ⌈/⌉ w.gate.capacity * w.store.inner.delay) w w' := by
  obtain ⟨k, hceil, hlower, hupper⟩ := exists_waves hkeys hvacant.one_le_capacity
  rw [hceil] at htime ⊢
  rw [← List.length_map fun key => Call.set key value] at hlower hupper
  have hrun := World.guardedAll_waves hvacant hdelay rfl (fun c _ s => call_answers c s) hlower
    hupper (Context.lt_deadline_of_limit htime)
  exact ⟨_, hrun, written_of_callAll rfl rfl rfl⟩

/-- **The time is up** before the last wave is ready: the values of the earlier waves are set. -/
theorem setAll_written_timeout (value : ByteArray) (hvacant : w.gate.Vacant)
    (hdelay : 1 ≤ w.store.inner.delay) (hkeys : 1 ≤ keys.length) (hpositive : 1 ≤ timeout)
    (htime : timeout ≤ keys.length ⌈/⌉ w.gate.capacity * w.store.inner.delay) :
    ∃ w', w.guardedAll ⟨some (w.now + timeout), none⟩ (keys.map fun key => .set key value) =
        (some (.error (.timeout timeout)), w') ∧
      Written value (keys.take (w.gate.capacity * ((timeout - 1) / w.store.inner.delay))) timeout
        w w' := by
  obtain ⟨hearlier, hlate, hfewer⟩ :=
    waves_before hkeys hvacant.one_le_capacity hdelay hpositive htime
  generalize (timeout - 1) / w.store.inner.delay = waves at hearlier hlate hfewer ⊢
  rw [← List.length_map fun key => Call.set key value] at hfewer
  have hdeadline : (⟨some (w.now + timeout), none⟩ : Context).deadline = some (w.now + timeout) :=
    rfl
  have hrun := World.guardedAll_waves_timeout hvacant hdelay rfl (fun c _ s => call_answers c s)
    hfewer hdeadline (Nat.add_lt_add_left hearlier _) (Nat.add_le_add_left hlate _)
  rw [Nat.add_sub_cancel_left, ← List.map_take, Nat.mul_comm] at hrun
  exact ⟨_, hrun, written_of_callAll rfl rfl rfl⟩

/-- A single value is set in time. -/
theorem set_written (key : String) (value : ByteArray) (hvacant : w.gate.Vacant)
    (hdelay : 1 ≤ w.store.inner.delay) (htime : ∀ timeout ∈ limit, w.store.inner.delay < timeout) :
    ∃ w', w.guarded ⟨limit.map (w.now + ·), none⟩ (.set key value) = (some (.ok ()), w') ∧
      Written value [key] w.store.inner.delay w w' := by
  have hrun := World.guarded_set_wave key value hvacant hdelay rfl (fun _ => rfl)
    (Context.lt_deadline_of_limit htime)
  exact ⟨_, hrun, written_of_callAll rfl rfl rfl⟩

end SlowStore

namespace Plan

variable {ν σ : Type} [CacheStore σ] {env : Environment ν}

/-- The context of a call has no other limits than the call's own time. -/
theorem Environment.contextAt_of_background (h : env.context = .background) (now : Nat) :
    env.contextAt now = ⟨env.timeout.map (now + ·), none⟩ := by
  rw [contextAt, h]
  cases env.timeout <;> rfl

end Plan

namespace Cache

variable {ν : Type} {config : Config} {codec : Codec Record} {space : KeySpace}
  {definitions : List String} {record : Record} {env : Plan.Environment ν}

section Writes

variable {σ : Type} [CacheStore σ] {keys : List String} {payload : ByteArray} {w w₁ w₂ : World σ}

/-- An insert whose pointers are not all written. -/
theorem run_writes_of_pointers_error {e : CacheError}
    (h : { w with minted := w.minted + 1 }.guardedAll (env.contextAt w.now)
      (keys.map fun key => .set key (env.ids w.minted).toBytes) = (some (.error e), w₁)) :
    (writes keys payload).run env w = (some (.error (.cache e)), w₁) := by
  have hpointers : (Plan.setAll keys (env.ids w.minted).toBytes).run env
      { w with minted := w.minted + 1 } = (some (.error (.cache e)), w₁) := by
    rw [Plan.setAll, Plan.run, h]
    rfl
  have hmint : (Plan.newId : Plan ν RecordId).run env w =
      (some (.ok (env.ids w.minted)), { w with minted := w.minted + 1 }) := rfl
  simp only [writes, Plan.run_bind, hmint, hpointers]

/-- An insert whose writes are all made. -/
theorem run_writes_of_ok
    (hpointers : { w with minted := w.minted + 1 }.guardedAll (env.contextAt w.now)
      (keys.map fun key => .set key (env.ids w.minted).toBytes) = (some (.ok ()), w₁))
    (hpayload : w₁.guarded (env.contextAt w₁.now) (.set (env.ids w.minted).payloadKey payload) =
      (some (.ok ()), w₂)) :
    (writes keys payload).run env w = (some (.ok (some (env.ids w.minted))), w₂) := by
  have hmint : (Plan.newId : Plan ν RecordId).run env w =
      (some (.ok (env.ids w.minted)), { w with minted := w.minted + 1 }) := rfl
  have hsetAll : (Plan.setAll keys (env.ids w.minted).toBytes).run env
      { w with minted := w.minted + 1 } = (some (.ok ()), w₁) := by
    rw [Plan.setAll, Plan.run, hpointers]
    rfl
  have hset : (Plan.set (env.ids w.minted).payloadKey payload).run env w₁ =
      (some (.ok ()), w₂) := by
    rw [Plan.set, Plan.run, hpayload]
    rfl
  simp only [writes, Plan.run_bind, hmint, hsetAll, hset]
  rfl

end Writes

/-! ### Writes in waves -/

variable {keys : List String} {payload : ByteArray} {w : World (Logged SlowStore)}

/-- Writes into a slow store that have enough time. -/
theorem writes_slow (payload : ByteArray) (hcontext : env.context = .background)
    (hvacant : w.gate.Vacant) (hdelay : 1 ≤ w.store.inner.delay) (hkeys : 1 ≤ keys.length)
    (htime : ∀ timeout ∈ env.timeout,
      keys.length ⌈/⌉ w.gate.capacity * w.store.inner.delay < timeout) :
    ∃ w' w'', (writes keys payload).run env w = (some (.ok (some (env.ids w.minted))), w'') ∧
      SlowStore.Written (env.ids w.minted).toBytes keys
        (keys.length ⌈/⌉ w.gate.capacity * w.store.inner.delay) w w' ∧
      SlowStore.Written payload [(env.ids w.minted).payloadKey] w.store.inner.delay w' w'' := by
  have hcontextAt := Plan.Environment.contextAt_of_background hcontext
  obtain ⟨w₁, hpointers, hwritten⟩ :=
    SlowStore.setAll_written (w := { w with minted := w.minted + 1 }) (env.ids w.minted).toBytes
      hvacant hdelay hkeys htime
  have hvacant₁ : w₁.gate.Vacant := by
    rw [hwritten.gate]
    exact hvacant
  have hdelay₁ : w₁.store.inner.delay = w.store.inner.delay := hwritten.delay
  obtain ⟨k, hceil, -, -⟩ := exists_waves hkeys hvacant.one_le_capacity
  have htime₁ : ∀ timeout ∈ env.timeout, w₁.store.inner.delay < timeout := by
    intro timeout htimeout
    have hone := htime timeout htimeout
    rw [hceil, Nat.succ_mul] at hone
    omega
  obtain ⟨w₂, hpayload, hset⟩ :=
    SlowStore.set_written (env.ids w.minted).payloadKey payload hvacant₁ (by rwa [hdelay₁]) htime₁
  rw [← hcontextAt] at hpointers hpayload
  rw [hdelay₁] at hset
  exact ⟨w₁, w₂, run_writes_of_ok hpointers hpayload,
    ⟨hwritten.gate, hwritten.now, hwritten.answers, hwritten.contents, hdelay₁⟩, hset⟩

/-- Writes into a slow store whose time is up before all pointers are written. -/
theorem writes_slow_timeout {timeout : Nat} (payload : ByteArray)
    (hcontext : env.context = .background) (hvacant : w.gate.Vacant)
    (hdelay : 1 ≤ w.store.inner.delay) (hkeys : 1 ≤ keys.length)
    (htimeout : env.timeout = some timeout) (hpositive : 1 ≤ timeout)
    (htime : timeout ≤ keys.length ⌈/⌉ w.gate.capacity * w.store.inner.delay) :
    ∃ w', (writes keys payload).run env w = (some (.error (.cache (.timeout timeout))), w') ∧
      SlowStore.Written (env.ids w.minted).toBytes
        (keys.take (w.gate.capacity * ((timeout - 1) / w.store.inner.delay))) timeout w w' := by
  obtain ⟨w₁, hpointers, hwritten⟩ := SlowStore.setAll_written_timeout
    (w := { w with minted := w.minted + 1 }) (env.ids w.minted).toBytes hvacant hdelay hkeys
    hpositive htime
  have hcontextAt : env.contextAt w.now = ⟨some (w.now + timeout), none⟩ := by
    rw [Plan.Environment.contextAt_of_background hcontext, htimeout]
    rfl
  rw [← hcontextAt] at hpointers
  exact ⟨w₁, run_writes_of_pointers_error hpointers,
    ⟨hwritten.gate, hwritten.now, hwritten.answers, hwritten.contents, hwritten.delay⟩⟩

/-- **An insert into a slow store**, at a gate that nobody uses and under a context without limits
of its own. The pointers are written in waves, as many at a time as the gate has units.

If all waves take less than the time limit of a call, or if there is none, the insert takes one
delay more than the waves. It has then written all pointers, in their order, and after them the
payload.

Otherwise it fails when the time limit is up. By then the pointers of those waves have been written
that were ready before, and nothing else. In both cases the gate is as it was. -/
theorem insert_slow {id : RecordId} (hcontext : env.context = .background)
    (hpositive : ∀ timeout ∈ env.timeout, 1 ≤ timeout) (hidle : w.gate.Idle)
    (hopen : w.gate.closed = false) (hcapacity : 1 ≤ w.gate.capacity)
    (hdelay : 1 ≤ w.store.inner.delay) (hkeys : keysOf config space definitions record = keys)
    (hsome : 1 ≤ keys.length) (hencode : codec.encode record = .ok payload)
    (hid : env.ids w.minted = id) :
    keys.Nodup ∧ ∃ o w',
      (insert config codec space definitions record).run env w = (o, w') ∧ w'.gate = w.gate ∧
      ((∀ timeout ∈ env.timeout,
          keys.length ⌈/⌉ w.gate.capacity * w.store.inner.delay < timeout) →
        o = some (.ok (some id)) ∧
        w'.now = w.now + (keys.length ⌈/⌉ w.gate.capacity + 1) * w.store.inner.delay ∧
        w'.store.answers = w.store.answers ++
          (keys.map (.written id.toBytes) ++ [.written payload id.payloadKey]) ∧
        w'.contents = Function.update (w.contents.fill keys id.toBytes) id.payloadKey payload) ∧
      ∀ timeout ∈ env.timeout,
        timeout ≤ keys.length ⌈/⌉ w.gate.capacity * w.store.inner.delay →
          o = some (.error (.cache (.timeout timeout))) ∧ w'.now = w.now + timeout ∧
          ∃ pointers, pointers = keys.take (min keys.length
              (w.gate.capacity * ((timeout - 1) / w.store.inner.delay))) ∧
            w'.store.answers = w.store.answers ++ pointers.map (.written id.toBytes) ∧
            w'.contents = w.contents.fill pointers id.toBytes := by
  have hvacant : w.gate.Vacant := ⟨hidle, hopen, hcapacity⟩
  obtain ⟨key, hkey⟩ := List.exists_mem_of_length_pos hsome
  rw [← hkeys, mem_keysOf] at hkey
  obtain ⟨hdeclared, definition, hdefinition, values, hvalues, -⟩ := hkey
  have hcovers : record.Covers definition := Record.covers_iff.2 ⟨values, hvalues⟩
  have hinsert : (insert config codec space definitions record).run env w =
      (writes keys payload).run env w := by
    rw [insert_eq_lift hdeclared ⟨definition, hdefinition, hcovers⟩, encode, hencode, hkeys]
    rfl
  subst hid
  refine ⟨hkeys ▸ nodup_keysOf record, ?_⟩
  by_cases htime : ∀ timeout ∈ env.timeout,
      keys.length ⌈/⌉ w.gate.capacity * w.store.inner.delay < timeout
  · obtain ⟨w₁, w₂, hrun, hpointers, hpayload⟩ :=
      writes_slow payload hcontext hvacant hdelay hsome htime
    refine ⟨_, w₂, hinsert.trans hrun, hpayload.gate.trans hpointers.gate,
      fun _ => ⟨rfl, ?_, ?_, ?_⟩, fun timeout htimeout hshort => ?_⟩
    · rw [hpayload.now, hpointers.now, Nat.succ_mul, Nat.add_assoc]
    · rw [hpayload.answers, hpointers.answers, List.append_assoc]
      rfl
    · rw [hpayload.contents, hpointers.contents]
      exact (Contents.fill_update _ _ []).symm
    · exact absurd (htime timeout htimeout) (Nat.not_lt_of_le hshort)
  · simp only [not_forall, Nat.not_lt] at htime
    obtain ⟨timeout, htimeout, hshort⟩ := htime
    obtain ⟨w₁, hrun, hpointers⟩ := writes_slow_timeout payload hcontext hvacant
      hdelay hsome htimeout (hpositive timeout htimeout) hshort
    refine ⟨_, w₁, hinsert.trans hrun, hpointers.gate,
      fun hlong => absurd (hlong timeout htimeout) (Nat.not_lt_of_le hshort),
      fun timeout' htimeout' _ => ?_⟩
    obtain rfl : timeout = timeout' := Option.some.inj (htimeout.symm.trans htimeout')
    refine ⟨rfl, hpointers.now, _, rfl, ?_⟩
    rw [Nat.min_comm, ← List.take_eq_take_min]
    exact ⟨hpointers.answers, hpointers.contents⟩

/-- A store that takes ten milliseconds, behind a gate with two units. -/
def tenMilliseconds : World (Logged SlowStore) where
  now := 0
  gate := Gate.ofCapacity 2
  store := { inner := { delay := 10 } }

/-- Calls with a time limit, and one identifier. -/
def timed (timeout : Option Nat) : Plan.Environment Empty :=
  { oneNewId with timeout := timeout }

/-- Three pointers take two waves. Without a time limit the insert ends after a third delay. With a
limit of two delays it fails at the moment when the second wave would be ready, and leaves the two
pointers of the first wave. -/
theorem insert_slow_team :
    (∃ w', (insert {} Codec.record ⟨"app", "users"⟩ ["id", "team", "team,id"] userOfTeam).run
        (timed none) tenMilliseconds = (some (.ok (some ⟨"r"⟩)), w') ∧ w'.now = 30) ∧
    ∃ w', (insert {} Codec.record ⟨"app", "users"⟩ ["id", "team", "team,id"] userOfTeam).run
        (timed (some 20)) tenMilliseconds = (some (.error (.cache (.timeout 20))), w') ∧
      w'.now = 20 ∧ w'.gate = Gate.ofCapacity 2 ∧
      w'.store.answers =
        ["app_users_7", "app_users_t"].map (.written (RecordId.mk "r").toBytes) := by
  have hidle : tenMilliseconds.gate.Idle := ⟨rfl, rfl, rfl⟩
  have hkeys : keysOf {} ⟨"app", "users"⟩ ["id", "team", "team,id"] userOfTeam =
      ["app_users_7", "app_users_t", "app_users_t_7"] := by
    decide +kernel
  have hencode : Codec.record.encode userOfTeam = .ok userOfTeam.toJson.render.toUTF8 := rfl
  have hcontext (timeout : Option Nat) : (timed timeout).context = .background := rfl
  constructor
  · obtain ⟨-, o, w', hrun, -, hlong, -⟩ := insert_slow (hcontext none) nofun hidle rfl
      (by decide) (by decide) hkeys (by decide) hencode rfl
    obtain ⟨rfl, hnow, -, -⟩ := hlong nofun
    exact ⟨w', hrun, hnow⟩
  · have hpositive : ∀ timeout ∈ (timed (some 20)).timeout, 1 ≤ timeout := by
      rintro _ ⟨⟩
      decide
    obtain ⟨-, o, w', hrun, hgate, -, hshort⟩ := insert_slow (hcontext (some 20)) hpositive hidle
      rfl (by decide) (by decide) hkeys (by decide) hencode rfl
    obtain ⟨rfl, hnow, pointers, rfl, hanswers, -⟩ := hshort 20 rfl (by decide)
    exact ⟨w', hrun, hnow, hgate, hanswers⟩

end Cache

end QueryCache
