import QueryCache.KeySpace
import QueryCache.Query.Compiler
import QueryCache.Record

/-!
# Sample data

A small user table for examples and tests: where it lives, a user, the indexes on users, and the
query for users by some of their fields.
-/

namespace QueryCache.Sample

/-- The users of the first database. -/
def space : KeySpace := ⟨"db1", "users"⟩

/-- A user. -/
def userRecord (email password : String) : Record :=
  [("email", .str email), ("password", .str password)]

/-- The user that samples are about. -/
def defaultUser : Record := userRecord "a@x.com" "p"

/-- The indexes on users. -/
def userDefinitions : List String := ["email", "email,password"]

/-- The query for the given fields to have the given values. -/
def equalityQuery (pairs : List (String × String)) : Except CompileError Query :=
  ({} : Compiler).compile (.and (pairs.map fun pair => .equal pair.1 (.str pair.2)))

end QueryCache.Sample
