import QueryCache.Assoc

/-!
# JSON values

The values that conditions carry, records hold and payloads encode.

Numbers keep apart what their text keeps apart: `1` is an integer and `1.0` a double. A double is
its 64 bits, so that equality of values is decidable and says exactly what is stored. The members
of an object are a list; `Json.ofMembers` sorts it by key, which is the order in which objects are
written.

## Main definitions

* `Json` : a value; `Json.ofMembers`, `Json.get?` : building and reading objects.
* `Json.same` : equality of values up to the sign of zero.
-/

namespace QueryCache

/-- An IEEE 754 binary64 value, held as its bits. -/
structure Double where
  bits : UInt64
deriving DecidableEq

namespace Double

/-- The double with the value of a machine float. -/
def ofFloat (x : Float) : Double := ⟨x.toBits⟩

/-- Whether the sign bit is set, as for `-0.0` and everything below it. -/
def isNegative (d : Double) : Bool := d.bits >>> 63 == 1

/-- The biased exponent field. -/
def exponentField (d : Double) : Nat := ((d.bits >>> 52) &&& 0x7ff).toNat

/-- The fraction field. -/
def fractionField (d : Double) : Nat := (d.bits &&& 0xfffffffffffff).toNat

/-- Neither infinite nor a NaN. -/
def isFinite (d : Double) : Bool := d.exponentField != 0x7ff

/-- Zero of either sign. -/
def isZero (d : Double) : Bool := d.bits &&& 0x7fffffffffffffff == 0

/-- Numerical equality of finite doubles: equal bits, or two zeros. -/
def same (x y : Double) : Bool := x == y || (x.isZero && y.isZero)

end Double

/-- A number: an integer or a double. The two never coincide, also when they have one value. -/
inductive Number where
  | int (value : Int)
  | double (value : Double)
deriving DecidableEq

namespace Number

/-- Equality of numbers of one kind; `0.0` and `-0.0` are equal. -/
def same : Number → Number → Bool
  | .int a, .int b => a == b
  | .double a, .double b => a.same b
  | _, _ => false

end Number

/-- A JSON value. -/
inductive Json where
  | null
  | bool (value : Bool)
  | num (value : Number)
  | str (value : String)
  | arr (items : List Json)
  | obj (members : List (String × Json))

namespace Json

instance : Inhabited Json := ⟨.null⟩

/-- The object with these members, in key order; of members with one key the last one stays. -/
def ofMembers (members : List (String × Json)) : Json := .obj (Assoc.ofList members)

/-- The member `key` of an object. -/
def get? : Json → String → Option Json
  | .obj members, key => members.lookup key
  | _, _ => none

/-- An integer. -/
def ofInt (n : Int) : Json := .num (.int n)

/-- A natural number. -/
def ofNat (n : Nat) : Json := .num (.int n)

/-- The list as an array. -/
def ofList (items : List Json) : Json := .arr items

mutual

/-- Equality of values: numbers by `Number.same`, arrays and objects member by member. -/
def same : Json → Json → Bool
  | .null, .null => true
  | .bool a, .bool b => a == b
  | .num a, .num b => a.same b
  | .str a, .str b => a == b
  | .arr a, .arr b => sameItems a b
  | .obj a, .obj b => sameMembers a b
  | _, _ => false

/-- Equality of arrays. -/
def sameItems : List Json → List Json → Bool
  | [], [] => true
  | a :: as, b :: bs => same a b && sameItems as bs
  | _, _ => false

/-- Equality of objects in key order. -/
def sameMembers : List (String × Json) → List (String × Json) → Bool
  | [], [] => true
  | (k, a) :: as, (l, b) :: bs => k == l && same a b && sameMembers as bs
  | _, _ => false

end

end Json

end QueryCache
