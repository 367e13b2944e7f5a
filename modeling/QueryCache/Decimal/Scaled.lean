import QueryCache.Json.Basic

/-!
# Reading a decimal as a double

A decimal is read as a significand of at most 64 bits that is scaled by one power of ten. Digits
that would not fit into 64 bits are dropped: before the point each dropped digit raises the
exponent by one, after it they have no effect. The scaling is one multiplication or one division
by the double nearest to the power; a value far below the range of powers is first divided by
`10 ^ 308`.

The result is the nearest double whenever the significand is below `2 ^ 53` and the power at most
`10 ^ 22`, because then both operands are exact.

## Main definitions

* `Decimal.Significand` : the digits read so far.
* `Decimal.scale?` : significand and exponent as a double; `none` if it is too large.
-/

namespace QueryCache.Decimal

/-- The digits read so far: `digits * 10 ^ exponent`. `full` once a digit did not fit; all later
digits are then dropped. -/
structure Significand where
  digits : Nat
  exponent : Int
  full : Bool

namespace Significand

/-- Nothing read yet. -/
def zero : Significand := ⟨0, 0, false⟩

/-- The largest significand. -/
def limit : Nat := 0xffffffffffffffff

/-- Reads one more digit of the integer part. -/
def pushInteger (s : Significand) (digit : Nat) : Significand :=
  if !s.full && s.digits * 10 + digit ≤ limit then { s with digits := s.digits * 10 + digit }
  else { s with exponent := s.exponent + 1, full := true }

/-- Opens the fraction: room is measured anew there. -/
def openFraction (s : Significand) : Significand := { s with full := false }

/-- Reads one more digit of the fraction. -/
def pushFraction (s : Significand) (digit : Nat) : Significand :=
  if !s.full && s.digits * 10 + digit ≤ limit then
    { s with digits := s.digits * 10 + digit, exponent := s.exponent - 1 }
  else { s with full := true }

end Significand

/-- The double nearest to `10 ^ k`. -/
def power (k : Nat) : Float := Float.ofScientific 1 false k

/-- Divides by powers of ten until the exponent is used up. -/
def scaleDown (x : Float) : Nat → Nat → Float
  | 0, k => x / power k
  | fuel + 1, k => if k ≤ 308 then x / power k else scaleDown (x / power 308) fuel (k - 308)

/-- The largest exponent that is written out; beyond it only its sign counts. -/
def exponentLimit : Nat := 0x7fffffff

/-- The double `digits * 10 ^ exponent`; `none` if it exceeds the largest double. Below the
smallest double the result is zero. -/
def scale? (digits : Nat) (exponent : Int) : Option Float :=
  let x := (UInt64.ofNat digits).toFloat
  if digits = 0 then some x
  else if 0 ≤ exponent then
    if 308 < exponent then none
    else
      let y := x * power exponent.toNat
      if y.isInf then none else some y
  else if exponent < -700 then some 0
  else some (scaleDown x 3 (-exponent).toNat)

end QueryCache.Decimal
