import QueryCache.Decimal.Shortest

/-!
# Writing JSON

The compact text of a value: no spaces, members in the order in which the object lists them, only
the characters escaped that must be, and doubles with the fewest digits that read back.

## Main definitions

* `Json.render` : the text of a value.
* `Double.render` : the text of a double, positional for exponents from -5 to 15.
-/

namespace QueryCache

namespace Double

/-- The decimal digits of a number as text. -/
def digitText (n : Nat) : String := String.ofList (Nat.toDigits 10 n)

/-- The given number of zeros. -/
def zeros (n : Nat) : String := String.ofList (List.replicate n '0')

/-- A decimal whose first digit has exponent `leading`, written positionally. A fraction is always
written. -/
def positional (d : Decimal) (leading : Int) : String :=
  let text := digitText d.digits
  if leading < 0 then "0." ++ zeros (-leading - 1).toNat ++ text
  else if 0 ≤ d.exponent then text ++ zeros d.exponent.toNat ++ ".0"
  else
    let split := leading.toNat + 1
    String.ofList (text.toList.take split) ++ "." ++ String.ofList (text.toList.drop split)

/-- A decimal with a single digit before the point and an exponent that always has a sign. -/
def scientific (d : Decimal) (leading : Int) : String :=
  let text := (digitText d.digits).toList
  let fraction := match text.drop 1 with
    | [] => ""
    | rest => "." ++ String.ofList rest
  let sign := if leading < 0 then "-" else "+"
  String.ofList (text.take 1) ++ fraction ++ "e" ++ sign ++ digitText leading.natAbs

/-- The text of a double. Exponents of the first digit from -5 to 15 are written positionally.
Infinities and NaN have no text of their own and are written as `null`. -/
def render (d : Double) : String :=
  if !d.isFinite then "null"
  else
    let sign := if d.isNegative then "-" else ""
    if d.isZero then sign ++ "0.0"
    else
      let s := Decimal.shortest d
      let leading := (Decimal.digitCount s.digits : Int) - 1 + s.exponent
      sign ++ (if -5 ≤ leading && leading ≤ 15 then positional s leading else scientific s leading)

end Double

namespace Number

/-- The text of a number. -/
def render : Number → String
  | .int n => toString n
  | .double d => d.render

end Number

namespace Json

/-- A hexadecimal digit in lower case. -/
def hexDigit (n : Nat) : Char := "0123456789abcdef".toList.getD n '0'

/-- The escaped form of a character: quotes, backslashes and control characters below the space
are escaped, everything else stands for itself. -/
def escapeChar (c : Char) : List Char :=
  if c = '"' then ['\\', '"']
  else if c = '\\' then ['\\', '\\']
  else if c = '\x08' then ['\\', 'b']
  else if c = '\x09' then ['\\', 't']
  else if c = '\x0a' then ['\\', 'n']
  else if c = '\x0c' then ['\\', 'f']
  else if c = '\x0d' then ['\\', 'r']
  else if c.toNat < 32 then
    ['\\', 'u', '0', '0', hexDigit (c.toNat / 16), hexDigit (c.toNat % 16)]
  else [c]

/-- A string in quotes. -/
def renderString (s : String) : String :=
  "\"" ++ String.ofList (s.toList.flatMap escapeChar) ++ "\""

mutual

/-- The compact text of a value. -/
def render : Json → String
  | .null => "null"
  | .bool true => "true"
  | .bool false => "false"
  | .num n => n.render
  | .str s => renderString s
  | .arr items => "[" ++ ",".intercalate (renderItems items) ++ "]"
  | .obj members => "\x7b" ++ ",".intercalate (renderMembers members) ++ "\x7d"

/-- The texts of the items of an array. -/
def renderItems : List Json → List String
  | [] => []
  | item :: rest => render item :: renderItems rest

/-- The texts of the members of an object. -/
def renderMembers : List (String × Json) → List String
  | [] => []
  | (key, value) :: rest => (renderString key ++ ":" ++ render value) :: renderMembers rest

end

end Json

end QueryCache
