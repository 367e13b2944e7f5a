import QueryCache.Query.Target

/-!
# Errors

Every cause of failure with its wording. `Error` is the sum of the four classes; its message names
the class in front of the cause.

## Main definitions

* `CompileError`, `IndexError`, `CacheError`, `ConfigError` : the causes.
* `Error.message`, `Error.isCacheTransport` : wording and the class of failures a read survives.
* `EnvironmentError` : failures of a store on disk, which reach the cache as transport failures.
-/

namespace QueryCache

/-- Why a predicate cannot be compiled or queries cannot be joined. -/
inductive CompileError where
  | unsupported (target : Target) (construct : String)
  | notASequence (field operator : String)
  | emptySequence (field operator : String)
  | targetMismatch (expected found : Target)
deriving DecidableEq

namespace CompileError

/-- The wording of the cause. -/
def message : CompileError → String
  | .unsupported target construct =>
    construct ++ " is not supported by the " ++ target.name ++ " target"
  | .notASequence field operator =>
    "Operator " ++ operator ++ " on field " ++ field ++ " requires a sequence value"
  | .emptySequence field operator =>
    "Operator " ++ operator ++ " on field " ++ field ++ " requires at least one value"
  | .targetMismatch expected found =>
    "Cannot combine a " ++ found.name ++ " fragment into a " ++ expected.name ++ " query"

/-- The name of the cause. -/
def kind : CompileError → String
  | .unsupported .. => "Unsupported"
  | .notASequence .. => "NotASequence"
  | .emptySequence .. => "EmptySequence"
  | .targetMismatch .. => "TargetMismatch"

end CompileError

/-- Why index definitions are refused. -/
inductive IndexError where
  | tooManyIndexes (count max : Nat)
  | tooManyCompositeFields (definition : String) (count max : Nat)
  | emptyDefinition (definition : String)
deriving DecidableEq

namespace IndexError

/-- The wording of the cause. -/
def message : IndexError → String
  | .tooManyIndexes count max =>
    "Too many composite indexes: " ++ toString count ++ " declared, at most " ++ toString max ++
      " allowed"
  | .tooManyCompositeFields definition count max =>
    "Too many fields in composite index '" ++ definition ++ "': " ++ toString count ++
      " declared, at most " ++ toString max ++ " allowed"
  | .emptyDefinition definition =>
    "Composite index definition '" ++ definition ++ "' names no fields"

/-- The name of the cause. -/
def kind : IndexError → String
  | .tooManyIndexes .. => "TooManyIndexes"
  | .tooManyCompositeFields .. => "TooManyCompositeFields"
  | .emptyDefinition .. => "EmptyDefinition"

end IndexError

/-- Why a call to the cache fails. -/
inductive CacheError where
  | transport (reason : String)
  | timeout (elapsed : Nat)
  | cancelled
  | gateClosed
  | encode (reason : String)
  | decode (key reason : String)
deriving DecidableEq

namespace CacheError

/-- The wording of the cause. -/
def message : CacheError → String
  | .transport reason => "Cache transport failed: " ++ reason
  | .timeout elapsed => "Cache operation timed out after " ++ toString elapsed ++ "ms"
  | .cancelled => "Cache operation cancelled"
  | .gateClosed => "Cache capacity gate closed"
  | .encode reason => "Failed to encode cache payload: " ++ reason
  | .decode key reason => "Failed to decode cache payload at " ++ key ++ ": " ++ reason

/-- The name of the cause. -/
def kind : CacheError → String
  | .transport .. => "Transport"
  | .timeout .. => "Timeout"
  | .cancelled => "Cancelled"
  | .gateClosed => "GateClosed"
  | .encode .. => "Encode"
  | .decode .. => "Decode"

/-- The store was not reached, or not in time. -/
def isTransport : CacheError → Bool
  | .transport .. | .timeout .. | .cancelled | .gateClosed => true
  | .encode .. | .decode .. => false

end CacheError

/-- Why a configuration is refused. -/
inductive ConfigError where
  | invalidValue (field value reason : String)
deriving DecidableEq

namespace ConfigError

/-- The wording of the cause. -/
def message : ConfigError → String
  | .invalidValue field value reason =>
    "Invalid value for " ++ field ++ ": " ++ value ++ " - " ++ reason

end ConfigError

/-- Any failure. -/
inductive Error where
  | compile (cause : CompileError)
  | index (cause : IndexError)
  | cache (cause : CacheError)
  | config (cause : ConfigError)
deriving DecidableEq

namespace Error

/-- The wording: the class, then the cause. -/
def message : Error → String
  | .compile cause => "Compile error: " ++ cause.message
  | .index cause => "Index error: " ++ cause.message
  | .cache cause => "Cache error: " ++ cause.message
  | .config cause => "Config error: " ++ cause.message

/-- The name of the class. -/
def className : Error → String
  | .compile _ => "Compile"
  | .index _ => "Index"
  | .cache _ => "Cache"
  | .config _ => "Config"

/-- The name of the cause. -/
def kind : Error → String
  | .compile cause => cause.kind
  | .index cause => cause.kind
  | .cache cause => cause.kind
  | .config (.invalidValue ..) => "InvalidValue"

/-- The store was not reached, or not in time. -/
def isCacheTransport : Error → Bool
  | .cache cause => cause.isTransport
  | _ => false

/-- The definitions of an index were refused. -/
def isIndex : Error → Bool
  | .index _ => true
  | _ => false

/-- A stored payload could not be decoded. -/
def isDecode : Error → Bool
  | .cache (.decode ..) => true
  | _ => false

end Error

/-- A failure of a store on disk. -/
inductive EnvironmentError where
  | environmentOpen (reason : String)
  | databaseOpen (reason : String)
  | transaction (reason : String)
  | io (reason : String)
deriving DecidableEq

namespace EnvironmentError

/-- The wording of the cause. -/
def message : EnvironmentError → String
  | .environmentOpen reason => "Failed to open LMDB environment: " ++ reason
  | .databaseOpen reason => "Failed to open database: " ++ reason
  | .transaction reason => "Transaction error: " ++ reason
  | .io reason => "I/O error: " ++ reason

/-- To the cache, a failing store is one that cannot be reached. -/
def toCacheError (e : EnvironmentError) : CacheError := .transport e.message

end EnvironmentError

end QueryCache
