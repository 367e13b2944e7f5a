import QueryCache.Json.Printer
import QueryCache.Json.Reader
import QueryCache.Record

/-!
# Codecs

A codec turns values into payload bytes and back; both ways may be refused. The JSON codec writes
compact JSON. What it reads back depends on the shape of value that is asked for.

## Main definitions

* `Codec` : encoder and decoder of a type.
* `Shape.read?` : a JSON value as a value of some shape.
* `Codec.json`, `Codec.record` : the JSON codec for values of a shape and for records.
-/

namespace QueryCache

/-- Encoder and decoder for the values of a type. A refusal gives its reason. -/
structure Codec (α : Type) where
  encode : α → Except String ByteArray
  decode : ByteArray → Except String α

/-- The kinds of value that can be asked for. -/
inductive Shape where
  /-- An object. -/
  | record
  /-- A list of objects. -/
  | records
  /-- Any value. -/
  | value
  /-- An integer of 64 bits with sign. -/
  | int
  /-- An integer of 64 bits without sign. -/
  | uint
  /-- A double; integers are converted. -/
  | float
  /-- A string. -/
  | text
  /-- A truth value. -/
  | flag
  /-- A list of strings. -/
  | texts
deriving DecidableEq

namespace Shape

/-- The double nearest to an integer of 64 bits. -/
def doubleOfInt (n : Int) : Double :=
  let magnitude := (UInt64.ofNat n.natAbs).toFloat
  Double.ofFloat (if n < 0 then -magnitude else magnitude)

/-- Whether a value is an object. -/
def isRecord : Json → Bool
  | .obj _ => true
  | _ => false

/-- Whether a value is a string. -/
def isText : Json → Bool
  | .str _ => true
  | _ => false

/-- The value as one of the shape. -/
def read? (shape : Shape) (v : Json) : Option Json :=
  match shape, v with
  | .value, v => some v
  | .record, .obj _ => some v
  | .records, .arr items => if items.all isRecord then some v else none
  | .int, .num (.int n) => if -0x8000000000000000 ≤ n ∧ n ≤ 0x7fffffffffffffff then some v else none
  | .uint, .num (.int n) => if 0 ≤ n ∧ n ≤ 0xffffffffffffffff then some v else none
  | .float, .num (.int n) => some (.num (.double (doubleOfInt n)))
  | .float, .num (.double _) => some v
  | .text, .str _ => some v
  | .flag, .bool _ => some v
  | .texts, .arr items => if items.all isText then some v else none
  | _, _ => none

end Shape

namespace Codec

/-- The JSON value of payload bytes. -/
def parseBytes? (bytes : ByteArray) : Option Json := (String.fromUTF8? bytes).bind Json.parse?

/-- The JSON codec for values of a shape. -/
def json (shape : Shape) : Codec Json where
  encode := fun v => .ok v.render.toUTF8
  decode := fun bytes =>
    match (parseBytes? bytes).bind shape.read? with
    | some v => .ok v
    | none => .error "not JSON of the expected shape"

/-- The JSON codec for records. -/
def record : Codec Record where
  encode := fun r => .ok r.toJson.render.toUTF8
  decode := fun bytes =>
    match (parseBytes? bytes).bind Record.ofJson? with
    | some r => .ok r
    | none => .error "not a JSON object"

/-- A codec that reads like the given one and refuses to write, for the given reason. -/
def readOnly {α : Type} (reason : String) (codec : Codec α) : Codec α :=
  { codec with encode := fun _ => .error reason }

end Codec

end QueryCache
