import QueryCache.Acquisitions
import QueryCache.Sample
import QueryCache.Session
import QueryCache.Predicate.Serialized
import QueryCache.Uuid
import QueryCache.Proofs.Predicate.Truth
import QueryCache.Proofs.Query.Compilation
import QueryCache.Proofs.Sql.Grammar
import QueryCache.Proofs.Sql.Precedence
import QueryCache.Proofs.Query.Signature
import QueryCache.Proofs.Query.Assembly
import QueryCache.Proofs.Filter.Truth
import QueryCache.Proofs.Query.Twins
import QueryCache.Proofs.Query.Chain
import QueryCache.Proofs.Fanout.Log
import QueryCache.Proofs.Fanout.Halt
import QueryCache.Proofs.Plan.Run
import QueryCache.Proofs.Plan.Ends
import QueryCache.Proofs.Plan.Refinement
import QueryCache.Proofs.Cache.Pointers
import QueryCache.Proofs.Cache.Update
import QueryCache.Proofs.Cache.Writes
import QueryCache.Proofs.Cache.Failure
import QueryCache.Proofs.Cache.Lookup
import QueryCache.Proofs.Cache.History
import QueryCache.Proofs.Cache.RoundTrip
import QueryCache.Proofs.Cache.Sharing
import QueryCache.Proofs.Cache.Interrupted
import QueryCache.Proofs.Cache.QueryResults
import QueryCache.Proofs.Joined
import QueryCache.Proofs.Plan.Calls
import QueryCache.Proofs.Cache.Scopes
import QueryCache.Proofs.Decimal.Shortest
import QueryCache.Proofs.Json.Numbers
import QueryCache.Proofs.Json.Printer
import QueryCache.Proofs.Cache.FastPath
import QueryCache.Proofs.Gate.Requests
import QueryCache.Proofs.Fanout.Units
import QueryCache.Proofs.Fanout.Progress
import QueryCache.Proofs.Plan.Units
import QueryCache.Proofs.Cache.Capacity
import QueryCache.Proofs.Fanout.Limits
import QueryCache.Proofs.Plan.Errors
import QueryCache.Proofs.Cache.StoreErrors
import QueryCache.Proofs.Store.Alike
import QueryCache.Proofs.Cache.ReadPolicy
import QueryCache.Proofs.Store.Unreachable
import QueryCache.Proofs.Plan.Dead
import QueryCache.Proofs.Cache.DeadContext
import QueryCache.Proofs.Session
import QueryCache.Proofs.Store.Bounded
import QueryCache.Proofs.Index
import QueryCache.Proofs.Cache.Insert
import QueryCache.Proofs.Query.Shape
import QueryCache.Proofs.Sql.Placeholders
import QueryCache.Proofs.Query.Placeholders
import QueryCache.Proofs.Query.Stepwise
import QueryCache.Proofs.Query.Failures
import QueryCache.Proofs.Query.Trees
import QueryCache.Proofs.Query.Nesting
import QueryCache.Proofs.Pattern.Reading
import QueryCache.Proofs.Pattern.Matching
import QueryCache.Proofs.Cache.ReadThrough
import QueryCache.Proofs.Fanout.Waves
import QueryCache.Proofs.Cache.SlowInsert
import QueryCache.Proofs.Text.Blank
import QueryCache.Proofs.Index.Declaration
import QueryCache.Proofs.Config.Text
import QueryCache.Proofs.Config.Variables
import QueryCache.Proofs.Predicate.Serialized
import QueryCache.Job
import QueryCache.Proofs.Job.Guarded
import QueryCache.Proofs.Job.Outcome
import QueryCache.Proofs.RecordId
import QueryCache.Proofs.Uuid
