import QueryCache.Proofs.Cache.Failure
import QueryCache.Proofs.Cache.Lookup
import QueryCache.Proofs.Cache.Scopes
import QueryCache.Proofs.Plan.Errors

/-!
# Errors of the store are never hidden

Every operation but the read through the cache ends with the first error of its calls, whether the
store answers with it or the gate or the context stops a call. So a lookup that finds nothing has
been told by the store that there is nothing, and what it cannot read it reports.

## Main definitions

* `Cache.readPayload` : the common end of both lookups.
* `Cache.Told`, `Cache.Reads`, `Cache.Follows` : what a lookup is told by the store, and how it
  ends.

## Main results

* `Cache.Operation.failsFast` : the operations that end with the first error.
* `Cache.lookupByEquality_follows`, `Cache.lookupByQuerySignature_reads` : how lookups end.
* `Cache.store_errors_surface` : errors are never taken for a miss or a success.
-/

namespace QueryCache.Cache

variable {ν α : Type} {space : KeySpace} {S : CacheError → Prop}

/-! ### Operations that fail fast -/

theorem failsFast_readPointers (keys : List String) :
    (readPointers keys : Plan ν _).FailsFast S := by
  induction keys with
  | nil => exact Plan.failsFast_pure _
  | cons key rest ih =>
    refine (Plan.failsFast_call (.get key)).bind fun bytes => ?_
    cases bytes with
    | none => exact ih
    | some bytes =>
      refine (Plan.failsFast_lift _ _).bind fun id => ih.bind fun others => ?_
      exact Plan.failsFast_pure _

theorem failsFast_insert (config : Config) (codec : Codec Record) (definitions : List String)
    (record : Record) : (insert config codec space definitions record : Plan ν _).FailsFast S := by
  rw [insert]
  split
  · exact Plan.failsFast_pure _
  · refine (Plan.failsFast_lift _ _).bind fun indexes => ?_
    simp only
    split
    · exact Plan.failsFast_pure _
    · refine (Plan.failsFast_lift _ _).bind fun payload => Plan.failsFast_newId.bind fun id => ?_
      refine (Plan.failsFast_batch _).bind fun _ => (Plan.failsFast_call _).bind fun _ => ?_
      exact Plan.failsFast_pure _

theorem failsFast_replace (codec : Codec Record) (oldKeys newKeys : List String)
    (current : List (String × RecordId)) (id : RecordId) (record : Record) :
    (replace codec oldKeys newKeys current id record : Plan ν _).FailsFast S := by
  refine (Plan.failsFast_lift _ _).bind fun payload => (Plan.failsFast_batch _).bind fun _ => ?_
  refine (Plan.failsFast_batch _).bind fun _ => (Plan.failsFast_call _).bind fun _ => ?_
  exact Plan.failsFast_pure _

theorem failsFast_update (config : Config) (codec : Codec Record) (definitions : List String)
    (old new : Record) :
    (update config codec space definitions old new : Plan ν _).FailsFast S := by
  rw [update]
  split
  · exact Plan.failsFast_pure _
  · refine (Plan.failsFast_lift _ _).bind fun indexes => ?_
    refine (failsFast_readPointers _).bind fun current => ?_
    split
    · exact failsFast_replace ..
    · exact Plan.failsFast_pure _
    · exact Plan.failsFast_newId.bind fun id => failsFast_replace ..

theorem failsFast_storeQueryResult (codec : Codec α) (query : Query) (value : α) :
    (storeQueryResult codec space query value : Plan ν _).FailsFast S := by
  rw [storeQueryResult]
  split
  · exact Plan.failsFast_pure _
  · refine (Plan.failsFast_lift _ _).bind fun payload => (Plan.failsFast_call _).bind fun _ => ?_
    exact Plan.failsFast_pure _

theorem failsFast_invalidateQueryResult (query : Query) :
    (invalidateQueryResult space query : Plan ν _).FailsFast S := by
  rw [invalidateQueryResult]
  split
  · exact Plan.failsFast_pure _
  · exact Plan.failsFast_call _

/-! ### What a lookup is told -/

/-- The value of the payload under a key, if there is one. -/
def readPayload (codec : Codec α) (key : String) : Plan ν (Option α) :=
  Plan.get key >>= fun bytes => match bytes with
    | none => pure none
    | some payload => Plan.lift .cache (decode codec key payload) >>= fun value => pure (some value)

theorem failsFast_readPayload (codec : Codec α) (key : String) :
    (readPayload codec key : Plan ν _).FailsFast S := by
  refine (Plan.failsFast_call _).bind fun bytes => ?_
  cases bytes with
  | none => exact Plan.failsFast_pure _
  | some payload => exact (Plan.failsFast_lift _ _).bind fun value => Plan.failsFast_pure _

section Lookups

variable {codec : Codec α} {query : Query}

theorem lookupByQuerySignature_eq : (lookupByQuerySignature codec space query : Plan ν _) =
    match query.cacheKey? with
    | none => pure none
    | some cacheKey => readPayload codec (space.queryKey cacheKey) := by
  rw [lookupByQuerySignature]
  cases query.cacheKey? <;> rfl

theorem lookupByEquality_eq_readPayload : (lookupByEquality codec space query : Plan ν _) =
    match query.pointerKey? space with
    | none => pure none
    | some key => Plan.get key >>= fun pointer => match pointer with
      | none => pure none
      | some bytes => Plan.lift .cache (pointerTarget key bytes) >>= fun id =>
        readPayload codec id.payloadKey :=
  lookupByEquality_eq

theorem failsFast_lookupByEquality :
    (lookupByEquality codec space query : Plan ν _).FailsFast S := by
  rw [lookupByEquality_eq_readPayload]
  split
  · exact Plan.failsFast_pure _
  · refine (Plan.failsFast_call _).bind fun pointer => ?_
    cases pointer with
    | none => exact Plan.failsFast_pure _
    | some bytes => exact (Plan.failsFast_lift _ _).bind fun id => failsFast_readPayload ..

theorem failsFast_lookupByQuerySignature :
    (lookupByQuerySignature codec space query : Plan ν _).FailsFast S := by
  rw [lookupByQuerySignature_eq]
  split
  · exact Plan.failsFast_pure _
  · exact failsFast_readPayload ..

end Lookups

namespace Operation

/-- The operation goes on to the primary store when the cache cannot serve it. -/
def readsThrough : {α : Type} → Operation ν α → Bool
  | _, find .. => true
  | _, _ => false

/-- **Every operation but the read through the cache** ends with the first error of its calls. -/
theorem failsFast (operation : Operation ν α) (h : operation.readsThrough = false) :
    (operation.plan space).FailsFast S := by
  cases operation with
  | insert config codec definitions record => exact failsFast_insert ..
  | update config codec definitions old new => exact failsFast_update ..
  | storeQueryResult codec query value => exact failsFast_storeQueryResult ..
  | invalidateQueryResult query => exact failsFast_invalidateQueryResult ..
  | lookupByEquality codec query => exact failsFast_lookupByEquality
  | lookupByQuerySignature codec query => exact failsFast_lookupByQuerySignature
  | find config codec query options => cases h

end Operation

/-- How a lookup ends that first reads the entry under a key, and what the store has answered by
then: it is stopped, the store fails or has no entry, or the lookup goes on with the entry. -/
inductive Told (key : String)
    (next : ByteArray → List Answer → Option (Except Error (Option α)) → Prop) :
    List Answer → Option (Except Error (Option α)) → Prop
  | stopped {o} (stops : o = none ∨ ∃ e : CacheError, e.Stops ∧ o = some (.error (.cache e))) :
    Told key next [] o
  | refused (e : CacheError) : Told key next [⟨.get key, .error e⟩] (some (.error (.cache e)))
  | absent : Told key next [⟨.get key, .ok none⟩] (some (.ok none))
  | present {bytes answers o} (goesOn : next bytes answers o) :
    Told key next (⟨.get key, .ok (some bytes)⟩ :: answers) o

/-- How the reading of a payload ends: with its value, or because it cannot be decoded. -/
def Reads (codec : Codec α) (key : String) :
    List Answer → Option (Except Error (Option α)) → Prop :=
  Told key fun payload answers o => answers = [] ∧ o = some (match decode codec key payload with
    | .ok value => .ok (some value)
    | .error e => .error (.cache e))

/-- How a lookup through a pointer ends: as the reading of the payload that it names, or because it
cannot be decoded. -/
def Follows (codec : Codec α) (key : String) :
    List Answer → Option (Except Error (Option α)) → Prop :=
  Told key fun bytes answers o => match pointerTarget key bytes with
    | .ok id => Reads codec id.payloadKey answers o
    | .error e => answers = [] ∧ o = some (.error (.cache e))

section Runs

variable {σ : Type} [CacheStore σ] {env : Plan.Environment ν} {w w' : World (Logged σ)}
  {codec : Codec α} {query : Query} {key : String} {o : Option (Except Error (Option α))}

/-- A lookup that first reads the entry under a key. -/
theorem told_of_run {f : Option ByteArray → Plan ν (Option α)}
    {next : ByteArray → List Answer → Option (Except Error (Option α)) → Prop}
    (hrun : (Plan.get key >>= f).run env w = (o, w')) (hnone : f none = pure none)
    (hsome : ∀ bytes (w₁ : World (Logged σ)), (f (some bytes)).run env w₁ = (o, w') →
      ∃ answers, w'.store.answers = w₁.store.answers ++ answers ∧ next bytes answers o) :
    ∃ answers, w'.store.answers = w.store.answers ++ answers ∧ Told key next answers o := by
  rcases Plan.run_call_bind hrun with ⟨bytes, w₁, hlog, hrest⟩ | ⟨e, rfl, hlog⟩ | ⟨hstops, hlog⟩
  · cases bytes with
    | none =>
      rw [hnone] at hrest
      cases hrest
      exact ⟨_, hlog, .absent⟩
    | some bytes =>
      obtain ⟨answers, hmore, hnext⟩ := hsome bytes w₁ hrest
      refine ⟨_, ?_, .present hnext⟩
      rw [hmore, hlog, List.append_assoc]
      rfl
  · exact ⟨_, hlog, .refused e⟩
  · exact ⟨[], by rw [hlog, List.append_nil], .stopped hstops⟩

/-- **Reading a payload** ends with what the store answers. -/
theorem readPayload_reads (hrun : (readPayload codec key : Plan ν _).run env w = (o, w')) :
    ∃ answers, w'.store.answers = w.store.answers ++ answers ∧ Reads codec key answers o := by
  refine told_of_run hrun rfl fun payload w₁ hrest => ⟨[], ?_⟩
  simp only at hrest
  cases hdecode : decode codec key payload <;> rw [hdecode] at hrest <;> cases hrest <;>
    exact ⟨(List.append_nil _).symm, rfl, rfl⟩

/-- **A lookup of a stored result** ends with what the store answers. -/
theorem lookupByQuerySignature_reads {cacheKey : String} (hkey : query.cacheKey? = some cacheKey)
    (hrun : (lookupByQuerySignature codec space query : Plan ν _).run env w = (o, w')) :
    ∃ answers, w'.store.answers = w.store.answers ++ answers ∧
      Reads codec (space.queryKey cacheKey) answers o := by
  rw [lookupByQuerySignature_eq, hkey] at hrun
  exact readPayload_reads hrun

/-- **A lookup by equality** ends with what the store answers. -/
theorem lookupByEquality_follows (hkey : query.pointerKey? space = some key)
    (hrun : (lookupByEquality codec space query : Plan ν _).run env w = (o, w')) :
    ∃ answers, w'.store.answers = w.store.answers ++ answers ∧ Follows codec key answers o := by
  rw [lookupByEquality_eq_readPayload, hkey] at hrun
  refine told_of_run hrun rfl fun bytes w₁ hrest => ?_
  simp only at hrest
  cases htarget : pointerTarget key bytes with
  | ok id =>
    rw [htarget] at hrest
    exact readPayload_reads hrest
  | error e =>
    rw [htarget] at hrest
    cases hrest
    exact ⟨[], (List.append_nil _).symm, rfl, rfl⟩

end Runs

section Told

variable {codec : Codec α} {key : String} {answers rest : List Answer}
  {o : Option (Except Error (Option α))}

/-- A payload that is not found is not there. -/
theorem Reads.of_none (h : Reads codec key answers (some (.ok none))) :
    answers = [⟨.get key, .ok none⟩] := by
  cases h with
  | stopped stops =>
    rcases stops with hnone | ⟨e, -, he⟩
    · cases hnone
    · cases he
  | absent => rfl
  | present goesOn =>
    obtain ⟨-, hvalue⟩ := goesOn
    split at hvalue <;> cases hvalue

/-- A payload that cannot be decoded is reported with its key. -/
theorem Reads.of_undecodable {payload : ByteArray} {reason : String}
    (h : Reads codec key (⟨.get key, .ok (some payload)⟩ :: rest) o)
    (hdecode : codec.decode payload = .error reason) :
    o = some (.error (.cache (.decode key reason))) := by
  cases h with
  | present goesOn =>
    obtain ⟨-, rfl⟩ := goesOn
    rw [decode, hdecode]

/-- A record that is not found has no pointer, or the pointer names a payload that is not there. -/
theorem Follows.of_none (h : Follows codec key answers (some (.ok none))) :
    answers = [⟨.get key, .ok none⟩] ∨ ∃ bytes id, pointerTarget key bytes = .ok id ∧
      answers = [⟨.get key, .ok (some bytes)⟩, ⟨.get id.payloadKey, .ok none⟩] := by
  cases h with
  | stopped stops =>
    rcases stops with hnone | ⟨e, -, he⟩
    · cases hnone
    · cases he
  | absent => exact .inl rfl
  | @present bytes answers _ goesOn =>
    cases htarget : pointerTarget key bytes with
    | ok id =>
      rw [htarget] at goesOn
      exact .inr ⟨bytes, id, htarget, congrArg _ goesOn.of_none⟩
    | error e =>
      rw [htarget] at goesOn
      cases goesOn.2

/-- A pointer that cannot be decoded is reported with its key. -/
theorem Follows.of_undecodable {bytes : ByteArray} {fault : Utf8.Fault}
    (h : Follows codec key (⟨.get key, .ok (some bytes)⟩ :: rest) o)
    (hdecode : Utf8.decode bytes = .error fault) :
    o = some (.error (.cache (.decode key fault.message))) := by
  cases h with
  | present goesOn =>
    simp only [pointerTarget, hdecode] at goesOn
    exact goesOn.2

theorem Follows.reads {bytes : ByteArray} {id : RecordId}
    (h : Follows codec key (⟨.get key, .ok (some bytes)⟩ :: rest) o)
    (htarget : pointerTarget key bytes = .ok id) : Reads codec id.payloadKey rest o := by
  cases h with
  | present goesOn =>
    rw [htarget] at goesOn
    exact goesOn

end Told

theorem pointerKey?_eq_none {query : Query} (h : query.pointerKey? space = none) :
    query.signature? = none ∨ query.defaultCacheable = false := by
  rw [Query.pointerKey?] at h
  split at h
  next hnone => exact .inl hnone
  next signature hsome =>
    split at h
    · cases h
    next hnot =>
      refine .inr ?_
      rw [Query.defaultCacheable, hsome]
      exact Bool.eq_false_iff.2 hnot

/-- **Errors of the store are never taken for a miss or a success.** An operation that does not
read through the cache ends with every error that the store answers to one of its calls, and with
every error by which the gate or the context stops one. A lookup that finds nothing is not
eligible, or has been told that there is no pointer, no stored result or no payload; and what it
has been given and cannot decode it reports with the key. -/
theorem store_errors_surface {ν σ : Type} [CacheStore σ] {space : KeySpace}
    {env : Plan.Environment ν} {w w' : World (Logged σ)} :
    (∀ {α : Type} {operation : Operation ν α} {o : Option (Except Error α)},
      operation.readsThrough = false → (operation.plan space).run env w = (o, w') →
        ∃ answers, w'.store.answers = w.store.answers ++ answers ∧ ∀ e,
          ((∃ a ∈ answers, a.error? = some e) ∨ (operation.plan space).Incurs env w e) →
            o = some (.error (.cache e))) ∧
    (∀ {α : Type} {codec : Codec α} {query : Query} {o : Option (Except Error (Option α))},
      (lookupByEquality codec space query : Plan ν _).run env w = (o, w') →
        ∃ answers, w'.store.answers = w.store.answers ++ answers ∧
          (o = some (.ok none) → query.signature? = none ∨ query.defaultCacheable = false ∨
            ∃ key, query.pointerKey? space = some key ∧ (answers = [⟨.get key, .ok none⟩] ∨
              ∃ bytes id, pointerTarget key bytes = .ok id ∧
                answers = [⟨.get key, .ok (some bytes)⟩, ⟨.get id.payloadKey, .ok none⟩])) ∧
          ∀ {key bytes rest}, query.pointerKey? space = some key →
            answers = ⟨.get key, .ok (some bytes)⟩ :: rest →
              (∀ fault, Utf8.decode bytes = .error fault →
                o = some (.error (.cache (.decode key fault.message)))) ∧
              ∀ {id payload more reason}, pointerTarget key bytes = .ok id →
                rest = ⟨.get id.payloadKey, .ok (some payload)⟩ :: more →
                  codec.decode payload = .error reason →
                    o = some (.error (.cache (.decode id.payloadKey reason)))) ∧
    (∀ {α : Type} {codec : Codec α} {query : Query} {o : Option (Except Error (Option α))},
      (lookupByQuerySignature codec space query : Plan ν _).run env w = (o, w') →
        ∃ answers, w'.store.answers = w.store.answers ++ answers ∧
          (o = some (.ok none) → query.cacheKey? = none ∨ ∃ cacheKey,
            query.cacheKey? = some cacheKey ∧
              answers = [⟨.get (space.queryKey cacheKey), .ok none⟩]) ∧
          ∀ {cacheKey payload rest reason}, query.cacheKey? = some cacheKey →
            answers = ⟨.get (space.queryKey cacheKey), .ok (some payload)⟩ :: rest →
              codec.decode payload = .error reason →
                o = some (.error (.cache (.decode (space.queryKey cacheKey) reason)))) := by
  refine ⟨fun {α operation o} hnot hrun => ?_, fun {α codec query o} hrun => ?_,
    fun {α codec query o} hrun => ?_⟩
  · have hfast : (operation.plan space).FailsFast fun _ => True := operation.failsFast hnot
    obtain ⟨answers, hlogs⟩ := Plan.run_logged hrun
    refine ⟨answers, hlogs.log, fun e he => ?_⟩
    rcases he with ⟨a, ha, he⟩ | hincurs
    · exact hfast.run_eq (hlogs.errors a ha e he) trivial hrun
    · exact hfast.run_eq hincurs trivial hrun
  · cases hkey : query.pointerKey? space with
    | none =>
      rw [lookupByEquality_eq_readPayload, hkey] at hrun
      cases hrun
      exact ⟨[], (List.append_nil _).symm,
        fun _ => (pointerKey?_eq_none hkey).imp_right .inl, nofun⟩
    | some key =>
      obtain ⟨answers, hlog, hfollows⟩ := lookupByEquality_follows hkey hrun
      refine ⟨answers, hlog, ?_, ?_⟩
      · rintro rfl
        exact .inr (.inr ⟨key, rfl, hfollows.of_none⟩)
      · intro key' bytes rest hsame hanswers
        cases hsame
        rw [hanswers] at hfollows
        refine ⟨fun fault => hfollows.of_undecodable, fun htarget hrest hdecode => ?_⟩
        have hreads := hfollows.reads htarget
        rw [hrest] at hreads
        exact hreads.of_undecodable hdecode
  · cases hkey : query.cacheKey? with
    | none =>
      rw [lookupByQuerySignature_eq, hkey] at hrun
      cases hrun
      exact ⟨[], (List.append_nil _).symm, fun _ => .inl rfl, nofun⟩
    | some cacheKey =>
      obtain ⟨answers, hlog, hreads⟩ := lookupByQuerySignature_reads hkey hrun
      refine ⟨answers, hlog, ?_, ?_⟩
      · rintro rfl
        exact .inr ⟨cacheKey, rfl, hreads.of_none⟩
      · intro cacheKey' payload rest reason hsame hanswers hdecode
        cases hsame
        rw [hanswers] at hreads
        exact hreads.of_undecodable hdecode

/-- An insert whose second write is refused ends with the refusal. A lookup of a result that is not
stored has asked for it. -/
theorem store_errors_surface_second_write :
    (∃ w', (insert {} Codec.record ⟨"app", "users"⟩ ["tenant", "email"]
      [("email", .str "b"), ("tenant", .str "t2")] : Plan Empty _).run
        ⟨{}, none, fun _ => ⟨"r1"⟩, fun _ => .ok none⟩ secondWriteRefused.logged =
          (some (.error (.cache (.transport "down"))), w')) ∧
    ∃ (q : Query) (w' : World (Logged FaultyStore)),
      (lookupByQuerySignature Codec.record ⟨"app", "users"⟩ q : Plan Empty _).run
        ⟨{}, none, fun _ => ⟨"r1"⟩, fun _ => .ok none⟩ secondWriteRefused.logged =
          (some (.ok none), w') ∧
        w'.store.answers = [⟨.get "app_users_EQUAL_7", .ok none⟩] := by
  constructor
  · obtain ⟨o, w', hrun⟩ : ∃ o w', (insert {} Codec.record ⟨"app", "users"⟩ ["tenant", "email"]
        [("email", .str "b"), ("tenant", .str "t2")] : Plan Empty _).run
          ⟨{}, none, fun _ => ⟨"r1"⟩, fun _ => .ok none⟩ secondWriteRefused.logged = (o, w') :=
      ⟨_, _, rfl⟩
    have hwrites : (Operation.insert {} Codec.record ["tenant", "email"]
        [("email", .str "b"), ("tenant", .str "t2")] : Operation Empty _).readsThrough = false :=
      rfl
    obtain ⟨answers, hlog, hsurface⟩ := store_errors_surface.1 hwrites hrun
    have hrefused : ∃ a ∈ w'.store.answers, a.error? = some (.transport "down") := by
      cases hrun
      exact ⟨_, .tail _ (.head _), rfl⟩
    rw [hlog] at hrefused
    exact ⟨w', hrun.trans (congrArg (·, w') (hsurface _ (.inl hrefused)))⟩
  · obtain ⟨q, hq, hkey⟩ : ∃ q : Query,
        Compiler.compile ⟨.relational, "?"⟩ (.equal "id" (.str "7")) = .ok q ∧
          q.cacheKey? = some "EQUAL_7" :=
      ⟨_, rfl, rfl⟩
    obtain ⟨w', hrun⟩ : ∃ w', (lookupByQuerySignature Codec.record ⟨"app", "users"⟩ q :
        Plan Empty _).run ⟨{}, none, fun _ => ⟨"r1"⟩, fun _ => .ok none⟩
          secondWriteRefused.logged = (some (.ok none), w') := by
      cases hq
      exact ⟨_, rfl⟩
    obtain ⟨answers, hlog, hmiss, -⟩ := store_errors_surface.2.2 hrun
    refine ⟨q, w', hrun, hlog.trans ?_⟩
    rcases hmiss rfl with hnone | ⟨cacheKey, hsome, hanswers⟩
    · cases hkey.symm.trans hnone
    · obtain rfl := Option.some.inj (hkey.symm.trans hsome)
      exact hanswers

end QueryCache.Cache
