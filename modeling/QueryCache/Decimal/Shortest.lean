import QueryCache.Json.Basic

/-!
# The shortest decimal that reads back

A finite double stands for all reals that round to it. Of the decimals in that interval the one
with the fewest digits is its name; among several of that length the one nearest to the double's
exact value is taken, and on a tie the one with an even last digit.

The search is exact. The double is `m * 2 ^ q`; the interval reaches half a unit of `2 ^ q` up and
half a unit down (a quarter below a power of two, where the spacing halves), and it contains its
ends when `m` is even. On the grid of `n`-digit decimals only the two neighbours of the exact
value have to be tried.

## Main definitions

* `Decimal` : `digits * 10 ^ exponent`.
* `Decimal.shortest` : the shortest decimal of a positive finite double.
-/

namespace QueryCache

/-- The decimal `digits * 10 ^ exponent`. -/
structure Decimal where
  digits : Nat
  exponent : Int
deriving DecidableEq

namespace Decimal

/-- A positive fraction with the interval of reals that round to it. All four numbers are over one
denominator. -/
structure Window where
  low : Nat
  value : Nat
  high : Nat
  denominator : Nat
  /-- The ends belong to the interval. -/
  closed : Bool

namespace Window

/-- The window of the double with integer significand `m` and binary exponent `q`.
`narrowBelow` says that the next smaller double is only half a unit away. -/
def ofBinary (m : Nat) (q : Int) (narrowBelow : Bool) : Window :=
  let below := if narrowBelow then 1 else 2
  let scale := 1 <<< (q - 2).toNat
  { low := (4 * m - below) * scale
    value := 4 * m * scale
    high := (4 * m + 2) * scale
    denominator := 1 <<< (2 - q).toNat
    closed := m % 2 == 0 }

/-- The window in units of `10 ^ unit`. -/
def inUnits (w : Window) (unit : Int) : Window :=
  let up := Nat.pow 10 (-unit).toNat
  { w with
    low := w.low * up
    value := w.value * up
    high := w.high * up
    denominator := w.denominator * Nat.pow 10 unit.toNat }

/-- Whether the integer `c` lies in the window. -/
def holds (w : Window) (c : Nat) : Bool :=
  let x := c * w.denominator
  if w.closed then w.low ≤ x && x ≤ w.high else w.low < x && x < w.high

/-- The integer of the window that names its value best: the nearer one of the two neighbours of
the value, the even one of two that are equally near, and the only one if just one is inside. -/
def nearest? (w : Window) : Option Nat :=
  let lower := w.value / w.denominator
  let upper := lower + 1
  match w.holds lower, w.holds upper with
  | true, true =>
    let down := w.value - lower * w.denominator
    let up := upper * w.denominator - w.value
    if down < up then some lower
    else if up < down then some upper
    else some (if lower % 2 == 0 then lower else upper)
  | true, false => some lower
  | false, true => some upper
  | false, false => none

end Window

/-- The number of decimal digits of a positive number. -/
def digitCount (n : Nat) : Nat := (Nat.toDigits 10 n).length

/-- The exponent of the first digit of `num / den` for a value below one, counted from `-1`
downwards: the least power of ten that lifts the value to one. -/
def leadingExponentBelowOne (num den : Nat) : Nat → Nat → Int
  | 0, k => -(k : Int)
  | fuel + 1, k =>
    if den ≤ num * Nat.pow 10 k then -(k : Int) else leadingExponentBelowOne num den fuel (k + 1)

/-- The exponent `k` with `10 ^ k ≤ num / den < 10 ^ (k + 1)`. -/
def leadingExponent (num den : Nat) : Int :=
  if den ≤ num then (digitCount (num / den) : Int) - 1
  else leadingExponentBelowOne num den 330 1

/-- Removes zeros at the end. -/
def normalize : Nat → Nat → Int → Decimal
  | 0, digits, exponent => ⟨digits, exponent⟩
  | fuel + 1, digits, exponent =>
    if digits % 10 == 0 && digits != 0 then normalize fuel (digits / 10) (exponent + 1)
    else ⟨digits, exponent⟩

/-- The first grid, from `n` digits on, that has a decimal in the window. `leading` is the exponent
of the value's first digit. Seventeen digits always suffice. -/
def search (w : Window) (leading : Int) : Nat → Nat → Decimal
  | 0, _ => ⟨0, 0⟩
  | fuel + 1, n =>
    let unit := leading - (n : Int) + 1
    match (w.inUnits unit).nearest? with
    | some c => normalize 20 c unit
    | none => search w leading fuel (n + 1)

/-- The shortest decimal that reads back as the absolute value of a finite, nonzero double. -/
def shortest (d : Double) : Decimal :=
  let e := d.exponentField
  let f := d.fractionField
  let m := if e = 0 then f else f + 0x10000000000000
  let q : Int := if e = 0 then -1074 else (e : Int) - 1075
  let w := Window.ofBinary m q (f == 0 && 1 < e)
  search w (leadingExponent w.value w.denominator) 17 1

end Decimal

end QueryCache
