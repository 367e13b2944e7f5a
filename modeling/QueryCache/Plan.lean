import QueryCache.Codec
import QueryCache.Fanout
import QueryCache.Query.Basic
import QueryCache.RecordId

/-!
# Plans

A plan is what a cache operation does, step by step: calls to the store, batches of calls that run
together, the minting of an identifier, a fetch from the primary store. Each step goes on with its
reply, which may be an error. A plan says nothing about time, gate or context; running it supplies
them.

## Main definitions

* `Plan` : plans for a result of type `α`, where `ν` is what the primary store holds.
* `Plan.bind`, `Plan.recover` : going on after success, and after any end.
* `Plan.run` : runs a plan in a world.
-/

namespace QueryCache

/-- What a cache operation does. -/
inductive Plan (ν α : Type) where
  /-- Nothing more. -/
  | done (result : Except Error α)
  /-- A call to the store. -/
  | call (c : Call) (next : Except CacheError c.Reply → Plan ν α)
  /-- Calls that run together. -/
  | batch (calls : List Call) (next : Except CacheError Unit → Plan ν α)
  /-- A new identifier. -/
  | mint (next : RecordId → Plan ν α)
  /-- A fetch from the primary store. -/
  | fetch (query : Query) (next : Except Error (Option ν) → Plan ν α)

namespace Plan

variable {ν α β : Type}

/-- Goes on with the end of a plan, whatever it is. -/
def recover : Plan ν α → (Except Error α → Plan ν β) → Plan ν β
  | done result, f => f result
  | call c next, f => call c fun reply => recover (next reply) f
  | batch calls next, f => batch calls fun reply => recover (next reply) f
  | mint next, f => mint fun id => recover (next id) f
  | fetch query next, f => fetch query fun reply => recover (next reply) f

/-- Goes on with the result of a plan, if it has one. -/
def bind (p : Plan ν α) (f : α → Plan ν β) : Plan ν β :=
  p.recover fun result => match result with
    | .ok a => f a
    | .error e => done (.error e)

instance : Monad (Plan ν) where
  pure a := done (.ok a)
  bind := bind

/-- A plan that only fails. -/
def fail (e : Error) : Plan ν α := done (.error e)

/-- The result of a pure step. -/
def lift {ε : Type} (wrap : ε → Error) : Except ε α → Plan ν α
  | .ok a => done (.ok a)
  | .error e => done (.error (wrap e))

/-- The value under a key. -/
def get (key : String) : Plan ν (Option ByteArray) := call (.get key) (lift .cache)

/-- Sets the value under a key. -/
def set (key : String) (value : ByteArray) : Plan ν Unit := call (.set key value) (lift .cache)

/-- Removes the entry under a key. -/
def delete (key : String) : Plan ν Bool := call (.delete key) (lift .cache)

/-- Sets one value under several keys, all together. -/
def setAll (keys : List String) (value : ByteArray) : Plan ν Unit :=
  batch (keys.map fun key => .set key value) (lift .cache)

/-- Removes the entries under several keys, all together. -/
def deleteAll (keys : List String) : Plan ν Unit := batch (keys.map .delete) (lift .cache)

/-- A new identifier. -/
def newId : Plan ν RecordId := mint fun id => done (.ok id)

/-- What the primary store holds for a query. -/
def fetchPrimary (query : Query) : Plan ν (Option ν) := fetch query done

/-- What a plan is run with. -/
structure Environment (ν : Type) where
  context : Context
  /-- The time limit of a store call whose context has no deadline. -/
  timeout : Option Nat
  /-- The identifiers in the order in which they are minted. -/
  ids : Nat → RecordId
  /-- What the primary store answers. -/
  primary : Query → Except Error (Option ν)

variable {σ : Type} [CacheStore σ]

/-- The context of a store call made now. -/
def Environment.contextAt (env : Environment ν) (now : Nat) : Context :=
  env.context.orTimeout now env.timeout

/-- Runs a plan. There is no result if it waits for ever. -/
def run (env : Environment ν) : Plan ν α → World σ → Option (Except Error α) × World σ
  | done result, w => (some result, w)
  | call c next, w =>
    match w.guarded (env.contextAt w.now) c with
    | (some reply, w) => run env (next reply) w
    | (none, w) => (none, w)
  | batch calls next, w =>
    match w.guardedAll (env.contextAt w.now) calls with
    | (some reply, w) => run env (next reply) w
    | (none, w) => (none, w)
  | mint next, w => run env (next (env.ids w.minted)) { w with minted := w.minted + 1 }
  | fetch query next, w =>
    run env (next (env.primary query)) { w with fetched := w.fetched + 1 }

end Plan

end QueryCache
