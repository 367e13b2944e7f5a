import QueryCache.Error
import QueryCache.Text.Blank

/-!
# Configuration

The limits of a cache and what it does when its store fails. A configuration is built up from the
default one, or read from named variables; a variable that is not set leaves the default. Zero
limits are refused.

## Main definitions

* `Config`, `Config.validate` : configurations and their check.
* `Config.ofLookup` : the configuration that named variables describe.
-/

namespace QueryCache

/-- What a read does when the store fails. -/
inductive ErrorPolicy where
  /-- It goes on without the cache. -/
  | degrade
  /-- It fails, too. -/
  | propagate
deriving DecidableEq

namespace ErrorPolicy

/-- The name of a policy. -/
def name : ErrorPolicy → String
  | .degrade => "Degrade"
  | .propagate => "Propagate"

/-- The policy that a text names, in letters of either case and with blanks around it. Only the case
of ASCII letters matters: no other character has a lower case that occurs in the two names. -/
def parse? (text : String) : Option ErrorPolicy :=
  let word := (trimBlankChars text.toList).map Char.toLower
  if word = "degrade".toList then some .degrade
  else if word = "propagate".toList then some .propagate
  else none

end ErrorPolicy

/-- The limits of a cache and its policy for failures. -/
structure Config where
  /-- Store calls that may be under way at one time. -/
  maxInFlight : Nat := 64
  /-- Milliseconds for a store call whose context has no deadline. -/
  opTimeout : Option Nat := some 5000
  /-- Index definitions per call. -/
  maxIndexes : Nat := 10
  /-- Fields per index definition. -/
  maxCompositeFields : Nat := 5
  onCacheError : ErrorPolicy := .degrade
deriving DecidableEq

namespace Config

/-- The default configuration. -/
def default : Config := {}

/-- A limit that is zero. -/
def zeroLimit (field : String) : ConfigError :=
  .invalidValue field "0" "must be greater than zero"

/-- Refuses a configuration with a limit of zero; the first one is named. -/
def validate (c : Config) : Except ConfigError Unit :=
  if c.maxInFlight = 0 then .error (zeroLimit "max_in_flight")
  else if c.maxIndexes = 0 then .error (zeroLimit "max_indexes")
  else if c.maxCompositeFields = 0 then .error (zeroLimit "max_composite_fields")
  else .ok ()

/-- The number that digits spell. -/
def digitsValue (digits : List Char) : Nat :=
  digits.foldl (fun n c => n * 10 + (c.toNat - '0'.toNat)) 0

/-- The number that a text names: digits with blanks around them and possibly a plus sign in front,
at most the largest number of 64 bits. -/
def parseNumber? (text : String) : Option Nat :=
  let word := trimBlankChars text.toList
  let digits := match word with
    | '+' :: rest => rest
    | _ => word
  if digits.isEmpty || !digits.all Char.isDigit then none
  else
    let n := digitsValue digits
    if n ≤ 0xffffffffffffffff then some n else none

/-- The number that a variable holds; none if it is not set. -/
def numberVar (lookup : String → Option String) (name : String) :
    Except ConfigError (Option Nat) :=
  match lookup name with
  | none => .ok none
  | some text =>
    match parseNumber? text with
    | some n => .ok (some n)
    | none => .error (.invalidValue name text "not a valid number")

/-- The policy that a variable names; none if it is not set. -/
def policyVar (lookup : String → Option String) (name : String) :
    Except ConfigError (Option ErrorPolicy) :=
  match lookup name with
  | none => .ok none
  | some text =>
    match ErrorPolicy.parse? text with
    | some policy => .ok (some policy)
    | none => .error (.invalidValue name text "expected \"degrade\" or \"propagate\"")

/-- The configuration that the variables describe. A timeout of zero means none. -/
def ofLookup (lookup : String → Option String) : Except ConfigError Config := do
  let maxInFlight ← numberVar lookup "KEEL_CACHE_MAX_IN_FLIGHT"
  let timeout ← numberVar lookup "KEEL_CACHE_OP_TIMEOUT_MS"
  let maxIndexes ← numberVar lookup "KEEL_CACHE_MAX_INDEXES"
  let maxCompositeFields ← numberVar lookup "KEEL_CACHE_MAX_COMPOSITE_FIELDS"
  let onCacheError ← policyVar lookup "KEEL_CACHE_ON_ERROR"
  let config : Config := {
    maxInFlight := maxInFlight.getD default.maxInFlight
    opTimeout := match timeout with
      | none => default.opTimeout
      | some 0 => none
      | some ms => some ms
    maxIndexes := maxIndexes.getD default.maxIndexes
    maxCompositeFields := maxCompositeFields.getD default.maxCompositeFields
    onCacheError := onCacheError.getD default.onCacheError }
  config.validate
  return config

end Config

end QueryCache
