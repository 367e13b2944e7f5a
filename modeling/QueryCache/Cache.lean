import QueryCache.Config
import QueryCache.Index
import QueryCache.KeySpace
import QueryCache.Plan
import QueryCache.Read
import QueryCache.Text.Utf8

/-!
# The cache

A cached record is a payload under its identifier, and a pointer to the identifier for each index
in which the record has a place. A query result is a payload under the key of the query's
signature.

Pointers are written before the payload, so that a record is never found half written: a pointer
whose payload is missing counts as a miss. An update first removes the pointers that the record no
longer has, then writes the new ones, and the payload last.

## Main definitions

* `Cache.insert`, `Cache.update` : caching a record and keeping up with its changes.
* `Cache.storeQueryResult`, `Cache.invalidateQueryResult` : caching a query's result.
* `Cache.lookupByEquality`, `Cache.lookupByQuerySignature` : reading from the cache alone.
* `Cache.find` : reading through the cache.
-/

namespace QueryCache.Cache

variable {ν α : Type}

/-- The keys of the pointers to a record, in the order of the indexes and each once. -/
def pointerKeys (space : KeySpace) (indexes : List CompositeIndex) (record : Record) :
    List String :=
  ((indexes.filterMap fun index => index.valuesKey? record).map space.indexKey).eraseDups

/-- The identifier that the bytes of a pointer name. -/
def pointerTarget (key : String) (bytes : ByteArray) : Except CacheError RecordId :=
  match Utf8.decode bytes with
  | .ok text => .ok ⟨text⟩
  | .error fault => .error (.decode key fault.message)

/-- The payload of a value. -/
def encode (codec : Codec α) (value : α) : Except CacheError ByteArray :=
  match codec.encode value with
  | .ok bytes => .ok bytes
  | .error reason => .error (.encode reason)

/-- The value of a payload. -/
def decode (codec : Codec α) (key : String) (bytes : ByteArray) : Except CacheError α :=
  match codec.decode bytes with
  | .ok value => .ok value
  | .error reason => .error (.decode key reason)

/-- The indexes that definitions declare, within the limits. -/
def indexesOf (config : Config) (definitions : List String) :
    Except IndexError (List CompositeIndex) :=
  CompositeIndex.parseAll definitions config.maxIndexes config.maxCompositeFields

/-! ### Records -/

/-- Caches a record under a new identifier. Nothing happens if it has a place in no index. -/
def insert (config : Config) (codec : Codec Record) (space : KeySpace)
    (definitions : List String) (record : Record) : Plan ν (Option RecordId) := do
  if definitions.isEmpty then return none
  let indexes ← Plan.lift .index (indexesOf config definitions)
  let keys := pointerKeys space indexes record
  if keys.isEmpty then return none
  let payload ← Plan.lift .cache (encode codec record)
  let id ← Plan.newId
  Plan.setAll keys id.toBytes
  Plan.set id.payloadKey payload
  return some id

/-- The targets of those pointers that are there, read one after the other. -/
def readPointers : List String → Plan ν (List (String × RecordId))
  | [] => return []
  | key :: rest => do
    match ← Plan.get key with
    | none => readPointers rest
    | some bytes =>
      let id ← Plan.lift .cache (pointerTarget key bytes)
      let others ← readPointers rest
      return (key, id) :: others

/-- Replaces the pointers and the payload of a record under an identifier: removes the pointers it
no longer has, writes those that do not name it yet, and then the payload. -/
def replace (codec : Codec Record) (oldKeys newKeys : List String)
    (current : List (String × RecordId)) (id : RecordId) (record : Record) :
    Plan ν (Option RecordId) := do
  let payload ← Plan.lift .cache (encode codec record)
  Plan.deleteAll (oldKeys.filter fun key => !newKeys.contains key)
  Plan.setAll (newKeys.filter fun key => current.lookup key != some id) id.toBytes
  Plan.set id.payloadKey payload
  return some id

/-- Brings the cache up to date with a change of a record. The identifier is that of the first old
pointer that is there, or a new one. Nothing happens if no old pointer is there and the new record
has a place in no index. -/
def update (config : Config) (codec : Codec Record) (space : KeySpace)
    (definitions : List String) (old new : Record) : Plan ν (Option RecordId) := do
  if definitions.isEmpty then return none
  let indexes ← Plan.lift .index (indexesOf config definitions)
  let oldKeys := pointerKeys space indexes old
  let newKeys := pointerKeys space indexes new
  let current ← readPointers oldKeys
  match current, newKeys with
  | (_, id) :: _, _ => replace codec oldKeys newKeys current id new
  | [], [] => return none
  | [], _ :: _ => do
    let id ← Plan.newId
    replace codec oldKeys newKeys current id new

/-! ### Query results -/

/-- Stores the result of a query; says whether the query can have one. -/
def storeQueryResult (codec : Codec α) (space : KeySpace) (query : Query) (result : α) :
    Plan ν Bool :=
  match query.cacheKey? with
  | none => return false
  | some cacheKey => do
    let payload ← Plan.lift .cache (encode codec result)
    Plan.set (space.queryKey cacheKey) payload
    return true

/-- Removes the result of a query; says whether there was one. -/
def invalidateQueryResult (space : KeySpace) (query : Query) : Plan ν Bool :=
  match query.cacheKey? with
  | none => return false
  | some cacheKey => Plan.delete (space.queryKey cacheKey)

/-! ### Lookups -/

/-- The record that a query by equality finds through the pointer for its values. -/
def lookupByEquality (codec : Codec α) (space : KeySpace) (query : Query) : Plan ν (Option α) :=
  match query.signature? with
  | none => return none
  | some signature =>
    if !signature.defaultCacheable then return none
    else do
      let pointer := space.indexKey signature.cacheValue
      match ← Plan.get pointer with
      | none => return none
      | some bytes =>
        let id ← Plan.lift .cache (pointerTarget pointer bytes)
        match ← Plan.get id.payloadKey with
        | none => return none
        | some payload =>
          let value ← Plan.lift .cache (decode codec id.payloadKey payload)
          return some value

/-- The stored result of a query. -/
def lookupByQuerySignature (codec : Codec α) (space : KeySpace) (query : Query) :
    Plan ν (Option α) :=
  match query.cacheKey? with
  | none => return none
  | some cacheKey => do
    let key := space.queryKey cacheKey
    match ← Plan.get key with
    | none => return none
    | some payload =>
      let value ← Plan.lift .cache (decode codec key payload)
      return some value

/-! ### Reading through -/

/-- Whether a read goes on without the cache after this error: the store was not reached or not in
time, the policy is to degrade, and nobody cancelled the read. -/
def absorbs (config : Config) : Error → Bool
  | .cache .cancelled => false
  | .cache cause => cause.isTransport && config.onCacheError == .degrade
  | _ => false

/-- A step of a read that counts as `missing` if its error is absorbed. -/
def absorbing (config : Config) (missing : α) (step : Plan ν α) : Plan ν α :=
  step.recover fun result => match result with
    | .ok a => .done (.ok a)
    | .error e => if absorbs config e then .done (.ok missing) else .done (.error e)

/-- The value from the primary store; it becomes the query's result if the options say so. -/
def findInPrimary (config : Config) (codec : Codec ν) (space : KeySpace) (query : Query)
    (options : ReadOptions) : Plan ν (Option (CacheRead ν)) := do
  match ← Plan.fetchPrimary query with
  | none => return none
  | some value =>
    if options.cacheResult then
      let _ ← absorbing config false (storeQueryResult codec space query value)
    return some (CacheRead.fromPrimary value)

/-- Reads through the cache: by the index pointer, by the query's result, and at last from the
primary store. -/
def find (config : Config) (codec : Codec ν) (space : KeySpace) (query : Query)
    (options : ReadOptions) : Plan ν (Option (CacheRead ν)) := do
  if options.forcePrimary then
    return (← Plan.fetchPrimary query).map CacheRead.fromPrimary
  let byPointer ←
    if query.defaultCacheable && !options.skipIndexLookup then
      absorbing config none (lookupByEquality codec space query)
    else pure none
  match byPointer with
  | some value => return some ⟨value, .indexPointer⟩
  | none =>
    match ← absorbing config none (lookupByQuerySignature codec space query) with
    | some value => return some ⟨value, .querySignature⟩
    | none => findInPrimary config codec space query options

end QueryCache.Cache
