import QueryCache.Decimal.Scaled

/-!
# Reading JSON

A strict reader for RFC 8259 texts. White space is space, tab, line feed and carriage return;
nothing may follow the value; numbers have no leading zeros; strings hold no raw control character
below the space and no escape of a lone surrogate. Arrays and objects nest at most 127 deep.

A number without fraction and exponent is an integer if it fits into 64 bits, signed or unsigned.
`-0` and everything else is a double, and a double beyond the largest finite one is refused. Of
members with one key the last one stays.

## Main definitions

* `Json.parse?` : the value of a text, if it has one.
-/

namespace QueryCache.Json

/-- White space between tokens. -/
def isSpace (c : Char) : Bool := c = ' ' || c = '\t' || c = '\n' || c = '\r'

/-- Drops white space. -/
def skipSpace (cs : List Char) : List Char := cs.dropWhile isSpace

/-- The value of a decimal digit. -/
def digit? (c : Char) : Option Nat := if c.isDigit then some (c.toNat - '0'.toNat) else none

/-- The value of a hexadecimal digit. -/
def hexDigit? (c : Char) : Option Nat :=
  if c.isDigit then some (c.toNat - '0'.toNat)
  else if 'a' ≤ c && c ≤ 'f' then some (c.toNat - 'a'.toNat + 10)
  else if 'A' ≤ c && c ≤ 'F' then some (c.toNat - 'A'.toNat + 10)
  else none

/-- Four hexadecimal digits. -/
def hexQuad? (a b c d : Char) : Option Nat := do
  let a ← hexDigit? a
  let b ← hexDigit? b
  let c ← hexDigit? c
  let d ← hexDigit? d
  return ((a * 16 + b) * 16 + c) * 16 + d

/-! ### Strings -/

/-- The character behind a one-letter escape. -/
def simpleEscape? (c : Char) : Option Char :=
  match c with
  | '"' => some '"'
  | '\\' => some '\\'
  | '/' => some '/'
  | 'b' => some '\x08'
  | 'f' => some '\x0c'
  | 'n' => some '\n'
  | 'r' => some '\r'
  | 't' => some '\t'
  | _ => none

/-- The character that an escaped pair of UTF-16 surrogates stands for. -/
def joinSurrogates (high low : Nat) : Char :=
  Char.ofNat (0x10000 + (high - 0xd800) * 0x400 + (low - 0xdc00))

/-- The rest of a string after its opening quote, with the characters read so far in reverse. -/
def stringBody? : List Char → List Char → Option (String × List Char)
  | [], _ => none
  | '"' :: rest, read => some (String.ofList read.reverse, rest)
  | '\\' :: 'u' :: a :: b :: c :: d :: '\\' :: 'u' :: e :: f :: g :: h :: rest, read =>
    match hexQuad? a b c d with
    | none => none
    | some high =>
      if 0xd800 ≤ high && high < 0xdc00 then
        match hexQuad? e f g h with
        | none => none
        | some low =>
          if 0xdc00 ≤ low && low < 0xe000 then
            stringBody? rest (joinSurrogates high low :: read)
          else none
      else if 0xdc00 ≤ high && high < 0xe000 then none
      else stringBody? ('\\' :: 'u' :: e :: f :: g :: h :: rest) (Char.ofNat high :: read)
  | '\\' :: 'u' :: a :: b :: c :: d :: rest, read =>
    match hexQuad? a b c d with
    | none => none
    | some n =>
      if 0xd800 ≤ n && n < 0xe000 then none else stringBody? rest (Char.ofNat n :: read)
  | '\\' :: c :: rest, read =>
    match simpleEscape? c with
    | none => none
    | some e => stringBody? rest (e :: read)
  | c :: rest, read => if c.toNat < 32 || c = '\\' then none else stringBody? rest (c :: read)
termination_by cs => cs.length

/-! ### Numbers -/

/-- Reads the digits in front, passing each to `push`; also says how many there were. -/
def takeDigits (push : Decimal.Significand → Nat → Decimal.Significand) :
    List Char → Decimal.Significand → Nat → Decimal.Significand × Nat × List Char
  | [], s, n => (s, n, [])
  | c :: rest, s, n =>
    match digit? c with
    | some d => takeDigits push rest (push s d) (n + 1)
    | none => (s, n, c :: rest)

/-- Reads the digits of an exponent. -/
def takeExponent : List Char → Nat → Nat → Nat × Nat × List Char
  | [], e, n => (e, n, [])
  | c :: rest, e, n =>
    match digit? c with
    | some d => takeExponent rest (e * 10 + d) (n + 1)
    | none => (e, n, c :: rest)

/-- The double of a significand and a written exponent. An exponent too large to be counted makes
a nonzero number too large or zero, depending on its sign. -/
def doubleOf? (negative : Bool) (s : Decimal.Significand) (down : Bool) (e : Nat) :
    Option Number :=
  let magnitude : Option Float :=
    if Decimal.exponentLimit < e then
      if s.digits != 0 && !down then none else some 0
    else Decimal.scale? s.digits (if down then s.exponent - e else s.exponent + e)
  magnitude.map fun x => .double (Double.ofFloat (if negative then -x else x))

/-- The rest of a number after integer part and fraction: an exponent or nothing. -/
def exponentPart? (negative : Bool) (s : Decimal.Significand) :
    List Char → Option (Number × List Char)
  | [] => (doubleOf? negative s false 0).map (·, [])
  | c :: rest =>
    if c = 'e' || c = 'E' then
      let (down, digits) : Bool × List Char := match rest with
        | '+' :: r => (false, r)
        | '-' :: r => (true, r)
        | r => (false, r)
      match takeExponent digits 0 0 with
      | (_, 0, _) => none
      | (e, _ + 1, r) => (doubleOf? negative s down e).map (·, r)
    else (doubleOf? negative s false 0).map (·, c :: rest)

/-- The number without fraction and exponent: an integer if it fits into 64 bits. -/
def integerOf? (negative : Bool) (s : Decimal.Significand) : Option Number :=
  if s.full then doubleOf? negative s false 0
  else if !negative then some (.int s.digits)
  else if s.digits = 0 || 0x8000000000000000 < s.digits then doubleOf? true s false 0
  else some (.int (-(s.digits : Int)))

/-- A number without its sign. -/
def unsigned? (negative : Bool) (cs : List Char) : Option (Number × List Char) :=
  match takeDigits Decimal.Significand.pushInteger cs .zero 0 with
  | (_, 0, _) => none
  | (s, n + 1, rest) =>
    if cs.head? = some '0' && n != 0 then none
    else match rest with
      | '.' :: r =>
        match takeDigits Decimal.Significand.pushFraction r s.openFraction 0 with
        | (_, 0, _) => none
        | (s, _ + 1, r) => exponentPart? negative s r
      | c :: r =>
        if c = 'e' || c = 'E' then exponentPart? negative s (c :: r)
        else (integerOf? negative s).map (·, c :: r)
      | [] => (integerOf? negative s).map (·, [])

/-- A number. -/
def number? : List Char → Option (Number × List Char)
  | '-' :: rest => unsigned? true rest
  | cs => unsigned? false cs

/-! ### Values -/

/-- The deepest nesting of arrays and objects that is read. -/
def depthLimit : Nat := 127

mutual

/-- A value after white space. `depth` counts the arrays and objects that may still be opened, and
`fuel` bounds the number of steps. -/
def value? : Nat → Nat → List Char → Option (Json × List Char)
  | 0, _, _ => none
  | fuel + 1, depth, cs =>
    match skipSpace cs with
    | 'n' :: 'u' :: 'l' :: 'l' :: rest => some (.null, rest)
    | 't' :: 'r' :: 'u' :: 'e' :: rest => some (.bool true, rest)
    | 'f' :: 'a' :: 'l' :: 's' :: 'e' :: rest => some (.bool false, rest)
    | '"' :: rest => (stringBody? rest []).map fun (s, r) => (.str s, r)
    | '[' :: rest =>
      match depth with
      | 0 => none
      | depth + 1 =>
        match skipSpace rest with
        | ']' :: r => some (.arr [], r)
        | r => (items? fuel depth r []).map fun (items, r) => (.arr items, r)
    | '\x7b' :: rest =>
      match depth with
      | 0 => none
      | depth + 1 =>
        match skipSpace rest with
        | '\x7d' :: r => some (.obj [], r)
        | r => (members? fuel depth r []).map fun (members, r) => (ofMembers members, r)
    | cs => (number? cs).map fun (n, r) => (.num n, r)

/-- The items of an array up to its closing bracket, with those read so far in reverse. -/
def items? : Nat → Nat → List Char → List Json → Option (List Json × List Char)
  | 0, _, _, _ => none
  | fuel + 1, depth, cs, read =>
    match value? fuel depth cs with
    | none => none
    | some (item, rest) =>
      match skipSpace rest with
      | ',' :: r => items? fuel depth r (item :: read)
      | ']' :: r => some ((item :: read).reverse, r)
      | _ => none

/-- The members of an object up to its closing brace, with those read so far in reverse. -/
def members? : Nat → Nat → List Char → List (String × Json) →
    Option (List (String × Json) × List Char)
  | 0, _, _, _ => none
  | fuel + 1, depth, cs, read =>
    match skipSpace cs with
    | '"' :: rest =>
      match stringBody? rest [] with
      | none => none
      | some (key, rest) =>
        match skipSpace rest with
        | ':' :: rest =>
          match value? fuel depth rest with
          | none => none
          | some (item, rest) =>
            match skipSpace rest with
            | ',' :: r => members? fuel depth r ((key, item) :: read)
            | '\x7d' :: r => some (((key, item) :: read).reverse, r)
            | _ => none
        | _ => none
    | _ => none

end

/-- The value of a text. Every step of the reader takes a character or opens a nested value, so
twice the length of the text suffices as a bound. -/
def parse? (text : String) : Option Json :=
  let cs := text.toList
  match value? (2 * cs.length + 2) depthLimit cs with
  | some (v, rest) => if (skipSpace rest).isEmpty then some v else none
  | none => none

end QueryCache.Json
