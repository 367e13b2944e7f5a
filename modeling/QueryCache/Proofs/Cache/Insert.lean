import Mathlib
import QueryCache.Proofs.Cache.Writes
import QueryCache.Proofs.Store.Logged

/-!
# What an insert does

An insert first looks at the definitions and at the record alone. It fails if the definitions are
refused, does nothing if the record has a place in no index, and fails if the record has no payload;
none of this has an effect. Only then it mints an identifier, writes it under the keys of the
record's pointers, each once, and at last the payload under the identifier.

## Main definitions

* `Record.Covers` : a record with all fields of a definition.
* `Cache.writes` : the part of an insert that has an effect.
* `Cache.Inserted` : what an insert leaves that has written all.

## Main results

* `Cache.insert_eq_fail`, `Cache.insert_eq_pure_none`, `Cache.insert_eq_lift` : what an insert comes
  to, by its arguments.
* `Cache.inserted_of_succeeds` : what writes leave that succeed.
* `Cache.insert_outcome` : what an insert returns, and what it does.
-/

namespace QueryCache

/-! ### Places -/

/-- The record has all fields that the definition names. -/
def Record.Covers (record : Record) (definition : String) : Prop :=
  ∀ field ∈ CompositeIndex.fieldNames definition, record.lookup field ≠ none

theorem Record.covers_iff {record : Record} {definition : String} :
    record.Covers definition ↔ ∃ values, (CompositeIndex.fieldNames definition).mapM
      (fun field => record.lookup field) = some values := by
  simp only [mapM_eq_some_iff]
  constructor
  · exact fun h => exists_forall₂ fun field hfield => Option.ne_none_iff_exists'.1 (h field hfield)
  · rintro ⟨values, hvalues⟩ field hfield hnone
    obtain ⟨value, -, hvalue⟩ := exists_mem_of_forall₂ hvalues.flip hfield
    cases hnone.symm.trans hvalue

namespace Cache

open CompositeIndex (Refused fieldNames)

variable {ν : Type} {config : Config} {codec : Codec Record} {space : KeySpace}
  {definitions : List String} {record : Record}

theorem keysOf_eq_nil_iff (h : Declared config definitions) :
    keysOf config space definitions record = [] ↔
      ∀ definition ∈ definitions, ¬ record.Covers definition := by
  simp only [List.eq_nil_iff_forall_not_mem, mem_keysOf, Record.covers_iff]
  constructor
  · rintro hnone definition hdefinition ⟨values, hvalues⟩
    exact hnone _ ⟨h, definition, hdefinition, values, hvalues, rfl⟩
  · rintro hnone key ⟨-, definition, hdefinition, values, hvalues, -⟩
    exact hnone definition hdefinition ⟨values, hvalues⟩

/-! ### What an insert comes to -/

/-- The identifier is minted, and written under the keys, and then the payload is written under
it. -/
def writes (keys : List String) (payload : ByteArray) : Plan ν (Option RecordId) := do
  let id ← Plan.newId
  Plan.setAll keys id.toBytes
  Plan.set id.payloadKey payload
  return some id

/-- An insert with definitions that are refused. -/
theorem insert_eq_fail {e : IndexError}
    (h : Refused config.maxIndexes config.maxCompositeFields definitions e) :
    (insert config codec space definitions record : Plan ν _) = Plan.fail (.index e) := by
  have hne : definitions ≠ [] := by
    rintro rfl
    exact CompositeIndex.exists_refused_iff.1 ⟨e, h⟩ ⟨Nat.zero_le _, nofun⟩
  have hindexes : indexesOf config definitions = .error e :=
    CompositeIndex.parseAll_eq_error_iff.2 h
  rw [insert, if_neg (mt List.isEmpty_iff.1 hne), hindexes]
  rfl

/-- An insert of a record that has a place in no index. -/
theorem insert_eq_pure_none (h : Declared config definitions)
    (hnone : ∀ definition ∈ definitions, ¬ record.Covers definition) :
    (insert config codec space definitions record : Plan ν _) = pure none := by
  rw [insert]
  split
  · rfl
  · have hindexes := indexesOf_eq_ok_iff.2 ⟨h, rfl⟩
    have hkeys : keysOf config space definitions record = [] := (keysOf_eq_nil_iff h).2 hnone
    rw [keysOf_of_ok hindexes] at hkeys
    rw [hindexes]
    simp only [Plan.lift]
    exact if_pos (List.isEmpty_iff.2 hkeys)

/-- An insert of a record that has a place goes on with the payload. -/
theorem insert_eq_lift (h : Declared config definitions)
    (hsome : ∃ definition ∈ definitions, record.Covers definition) :
    (insert config codec space definitions record : Plan ν _) =
      Plan.lift .cache (encode codec record) >>=
        writes (keysOf config space definitions record) := by
  obtain ⟨definition, hdefinition, hcovers⟩ := hsome
  have hkeys : keysOf config space definitions record ≠ [] :=
    fun hnil => (keysOf_eq_nil_iff h).1 hnil definition hdefinition hcovers
  rw [insert, if_neg (mt List.isEmpty_iff.1 (List.ne_nil_of_mem hdefinition))]
  have hindexes := indexesOf_eq_ok_iff.2 ⟨h, rfl⟩
  rw [keysOf_of_ok hindexes] at hkeys ⊢
  rw [hindexes]
  exact if_neg (mt List.isEmpty_iff.1 hkeys)

/-! ### What an insert writes -/

section Writes

variable {σ : Type} [CacheStore σ] {env : Plan.Environment ν} {keys : List String}
  {payload : ByteArray} {id : RecordId}

/-- **How writes end**: with the identifier, or because something goes wrong with a call. -/
theorem writes_ends {mishaps : Mishaps} {ids : Nat → RecordId} {s s' : Snapshot}
    {o : Option (Except Error (Option RecordId))}
    (h : (writes keys payload : Plan ν _).Ends mishaps ids s o s') :
    o = some (.ok (some (ids s.minted))) ∨
      ∃ c fault, mishaps c fault ∧ o = fault.map fun e => .error (.cache e) := by
  have hwrites := setAll_set_ends (Contents.fill_nil _ _).symm (Plan.ends_newId_bind_iff.1 h)
  generalize s'.contents = after at hwrites
  cases hwrites with
  | settled => exact .inl rfl
  | removing stop _ | writing stop _ =>
    obtain ⟨-, -, c, -, fault, hfault, ho⟩ := stop
    exact .inr ⟨c, fault, hfault, ho⟩

/-- What an insert leaves that has written all: one identifier has been minted; it has been written
under each key once, in some order, and after that the payload under it; all else is as before. -/
structure Inserted [LawfulStore σ] (ids : Nat → RecordId) (keys : List String) (payload : ByteArray)
    (w w' : World (Logged σ)) (id : RecordId) : Prop where
  id_eq : id = ids w.minted
  minted : w'.minted = w.minted + 1
  answers : ∃ pointers : List Answer,
    w'.store.answers = w.store.answers ++ pointers ++ [⟨.set id.payloadKey payload, .ok ()⟩] ∧
      (pointers.map Answer.call).Perm (keys.map fun key => .set key id.toBytes) ∧
        ∀ answer ∈ pointers, answer.error? = none
  payload : w'.contents id.payloadKey = some payload
  others : ∀ key, key ≠ id.payloadKey →
    w'.contents key = if key ∈ keys then some id.toBytes else w.contents key

/-- **Writes that succeed** have all been made. -/
theorem inserted_of_succeeds [LawfulStore σ] {w w' : World (Logged σ)} {r : Option RecordId}
    (h : (writes keys payload).Succeeds env w r w') :
    ∃ id, r = some id ∧ Inserted env.ids keys payload w w' id := by
  obtain ⟨id, w₁, hmint, h⟩ := Plan.succeeds_bind_iff.1 h
  obtain ⟨rfl, rfl⟩ := hmint.of_newId
  obtain ⟨_, w₂, hpointers, h⟩ := Plan.succeeds_bind_iff.1 h
  obtain ⟨_, w₃, hpayload, h⟩ := Plan.succeeds_bind_iff.1 h
  obtain ⟨rfl, rfl⟩ := Plan.succeeds_pure_iff.1 h
  obtain ⟨⟨order, hperm, hanswers⟩, -⟩ := hpointers.of_batch
  obtain ⟨pointers, hlog, hcalls, hok⟩ := World.answers_of_answers hanswers
  obtain ⟨hkeys, hcounts⟩ := hpointers.of_setAll
  obtain ⟨hcontents, hcounts'⟩ := hpayload.of_set
  refine ⟨_, rfl, rfl, (hcounts.trans hcounts').minted, ⟨pointers, ?_, ?_, hok⟩, ?_,
    fun key hne => ?_⟩
  · rw [Logged.answers_of_call hpayload.call_eq.1, hlog]
  · rw [hcalls]
    exact hperm
  · rw [hcontents, Function.update_self]
  · rw [hcontents, Function.update_of_ne hne, hkeys]
    rfl

/-! ### Inserts -/

/-- What an insert of a record that has a place returns, and what it does. -/
theorem insert_of_covers [LawfulStore σ] {w w' : World (Logged σ)}
    {o : Option (Except Error (Option RecordId))} (hdeclared : Declared config definitions)
    (hsome : ∃ definition ∈ definitions, record.Covers definition)
    (h : (insert config codec space definitions record).run env w = (o, w')) :
    ((∀ e, o ≠ some (.error (.index e))) ∧ o ≠ some (.ok none)) ∧
      (∀ reason, codec.encode record = .error reason →
        o = some (.error (.cache (.encode reason))) ∧ w' = w) ∧
      ∀ payload, codec.encode record = .ok payload →
        (insert config codec space definitions record).Answered env w →
          ∃ id, o = some (.ok (some id)) ∧
          Inserted env.ids (keysOf config space definitions record) payload w w' id := by
  rw [insert_eq_lift hdeclared hsome] at h ⊢
  cases hencode : codec.encode record with
  | error reason =>
    rw [encode, hencode] at h
    cases h
    refine ⟨⟨by simp, by simp⟩, fun reason' h => ?_, by simp⟩
    cases h
    exact ⟨rfl, rfl⟩
  | ok payload =>
    rw [encode, hencode] at h ⊢
    have hrun : (writes (keysOf config space definitions record) payload).run env w = (o, w') := h
    refine ⟨?_, by simp, fun payload' h' hanswered => ?_⟩
    · rcases writes_ends (Plan.ends_of_run Mishaps.covers_always hrun) with rfl | ⟨_, fault, -, rfl⟩
      · exact ⟨by simp, by simp⟩
      · cases fault <;> exact ⟨by simp, by simp⟩
    · cases h'
      obtain ⟨result, w₁, hrun', hends⟩ := Plan.Answered.ends hanswered
      cases hrun'.symm.trans hrun
      rcases writes_ends hends with hid | ⟨_, _, hnever, -⟩
      · cases hid
        obtain ⟨_, hid, hinserted⟩ := inserted_of_succeeds hrun
        cases hid
        exact ⟨_, rfl, hinserted⟩
      · exact hnever.elim

/-- **What an insert returns, and what it does**, whatever the store held.

It fails with an error of the definitions exactly if these are refused: there are too many, or else
the first one that does not fit is to blame. It returns nothing exactly if there are no definitions,
or they are accepted and the record lacks a field of each. In both cases neither the store nor the
identifiers have been touched.

Otherwise it fails if the codec refuses the record, again without an effect. If not, and if all
calls to the store are answered, it returns the next identifier. This has been written once under
the key of each definition whose fields the record has all, and after that the payload has been
written under it. All else in the store is as before. -/
theorem insert_outcome [LawfulStore σ] {w w' : World (Logged σ)}
    {o : Option (Except Error (Option RecordId))}
    (h : (insert config codec space definitions record).run env w = (o, w')) :
    ((∀ e, o = some (.error (.index e)) ↔
        Refused config.maxIndexes config.maxCompositeFields definitions e) ∧
      ((∃ e, o = some (.error (.index e))) ↔ ¬ Declared config definitions) ∧
      ((∃ e, o = some (.error (.index e))) → w' = w)) ∧
    ((o = some (.ok none) ↔ definitions = [] ∨
        Declared config definitions ∧ ∀ definition ∈ definitions, ¬ record.Covers definition) ∧
      (o = some (.ok none) → w' = w)) ∧
    (Declared config definitions → (∃ definition ∈ definitions, record.Covers definition) →
      (∀ reason, codec.encode record = .error reason →
        o = some (.error (.cache (.encode reason))) ∧ w' = w) ∧
      ∀ payload, codec.encode record = .ok payload →
        (insert config codec space definitions record).Answered env w →
          ∃ id keys, o = some (.ok (some id)) ∧ Inserted env.ids keys payload w w' id ∧ keys.Nodup ∧
            ∀ key, key ∈ keys ↔ ∃ definition ∈ definitions, ∃ values,
              (fieldNames definition).mapM (fun field => record.lookup field) = some values ∧
                key = space.indexKey (keySeparator.intercalate (values.map Json.token))) := by
  have hnothing : definitions = [] → Declared config definitions := by
    rintro rfl
    exact ⟨Nat.zero_le _, nofun⟩
  by_cases hdeclared : Declared config definitions
  swap
  · obtain ⟨e, he⟩ := CompositeIndex.exists_refused_iff.2 hdeclared
    rw [insert_eq_fail he] at h
    cases h
    refine ⟨⟨fun e' => ⟨fun heq => ?_, fun he' => by rw [he.unique he']⟩,
      iff_of_true ⟨e, rfl⟩ hdeclared, fun _ => rfl⟩,
      ⟨iff_of_false nofun fun hnone => hdeclared (hnone.elim hnothing And.left), nofun⟩,
      fun h => (hdeclared h).elim⟩
    cases heq
    exact he
  have hnot (e : IndexError) :
      ¬ Refused config.maxIndexes config.maxCompositeFields definitions e :=
    fun he => CompositeIndex.exists_refused_iff.1 ⟨e, he⟩ hdeclared
  by_cases hsome : ∃ definition ∈ definitions, record.Covers definition
  swap
  · have hnone : ∀ definition ∈ definitions, ¬ record.Covers definition :=
      fun definition hmem hcovers => hsome ⟨definition, hmem, hcovers⟩
    rw [insert_eq_pure_none hdeclared hnone] at h
    cases h
    exact ⟨⟨fun e => iff_of_false nofun (hnot e),
        iff_of_false nofun (not_not_intro hdeclared), nofun⟩,
      ⟨iff_of_true rfl (.inr ⟨hdeclared, hnone⟩), fun _ => rfl⟩,
      fun _ h => (hsome h).elim⟩
  obtain ⟨⟨hindex, hnotNone⟩, hrefused, hwrites⟩ := insert_of_covers hdeclared hsome h
  refine ⟨⟨fun e => iff_of_false (hindex e) (hnot e),
      iff_of_false (fun ⟨e, he⟩ => hindex e he) (not_not_intro hdeclared),
      fun ⟨e, he⟩ => (hindex e he).elim⟩,
    ⟨iff_of_false hnotNone ?_, fun h => (hnotNone h).elim⟩,
    fun _ _ => ⟨hrefused, fun payload hpayload hanswered => ?_⟩⟩
  · obtain ⟨definition, hmem, hcovers⟩ := hsome
    rintro (rfl | ⟨-, hnone⟩)
    · cases hmem
    · exact hnone definition hmem hcovers
  · obtain ⟨id, hid, hinserted⟩ := hwrites payload hpayload hanswered
    exact ⟨id, _, hid, hinserted, nodup_keysOf record,
      fun key => mem_keysOf.trans (and_iff_right hdeclared)⟩

/-- A user of a team. -/
def userOfTeam : Record := [("id", .str "7"), ("team", .str "t")]

/-- A cache whose store holds a pointer of the team already. -/
def teamPointed : World (Logged MemoryStore) where
  now := 0
  gate := Gate.ofCapacity 2
  store := { inner := ⟨{ entries := [("app_users_t", "old".toUTF8)] }⟩ }

/-- No limits, and one identifier. -/
def oneNewId : Plan.Environment Empty := ⟨{}, none, fun _ => ⟨"r"⟩, fun _ => .ok none⟩

/-- Of four definitions two have the same fields and one has a field that the user lacks. So two
pointers are written, and one of them replaces the old one. If the definitions are refused, the
first one that names no field is to blame. -/
theorem insert_outcome_team :
    (∃ w' keys, (insert {} Codec.record ⟨"app", "users"⟩ ["team", " team ,", "team,mail", "team,id"]
        userOfTeam).run oneNewId teamPointed = (some (.ok (some ⟨"r"⟩)), w') ∧
      Inserted oneNewId.ids keys userOfTeam.toJson.render.toUTF8 teamPointed w' ⟨"r"⟩ ∧ keys.Nodup ∧
        "app_users_t_7" ∈ keys) ∧
    (insert {} Codec.record ⟨"app", "users"⟩ ["team", " , ", ""] userOfTeam).run oneNewId
      teamPointed =
      (some (.error (.index (.emptyDefinition " , "))), teamPointed) := by
  constructor
  · obtain ⟨o, w', hrun⟩ : ∃ o w', (insert {} Codec.record ⟨"app", "users"⟩
        ["team", " team ,", "team,mail", "team,id"] userOfTeam).run oneNewId teamPointed =
          (o, w') :=
      ⟨_, _, rfl⟩
    have hdeclared : Declared {} ["team", " team ,", "team,mail", "team,id"] := by decide +kernel
    have hcovers : userOfTeam.Covers "team" := Record.covers_iff.2 ⟨[.str "t"], rfl⟩
    have hanswered : (insert {} Codec.record ⟨"app", "users"⟩
        ["team", " team ,", "team,mail", "team,id"] userOfTeam).Answered oneNewId teamPointed :=
      ⟨_, rfl, _, _, rfl, trivial⟩
    obtain ⟨-, -, hwrites⟩ := insert_outcome hrun
    obtain ⟨id, keys, rfl, hinserted, hnodup, hkeys⟩ :=
      (hwrites hdeclared ⟨_, List.mem_cons_self, hcovers⟩).2 _ rfl hanswered
    obtain rfl : id = ⟨"r"⟩ := hinserted.id_eq
    refine ⟨w', keys, hrun, hinserted, hnodup, (hkeys _).2 ⟨"team,id", by decide, ?_⟩⟩
    exact ⟨[.str "t", .str "7"], rfl, by decide +kernel⟩
  · obtain ⟨o, w', hrun⟩ : ∃ o w', (insert {} Codec.record ⟨"app", "users"⟩ ["team", " , ", ""]
        userOfTeam).run oneNewId teamPointed = (o, w') := ⟨_, _, rfl⟩
    obtain ⟨⟨hindex, -, hsame⟩, -, -⟩ := insert_outcome hrun
    have hrefused : CompositeIndex.Refused 10 5 ["team", " , ", ""] (.emptyDefinition " , ") :=
      .first (by decide) (List.singleton_append.symm) (by decide +kernel)
        (.noField (by decide +kernel))
    have ho := (hindex _).2 hrefused
    rw [hrun, ho, hsame ⟨_, ho⟩]

end Writes

end Cache

end QueryCache
