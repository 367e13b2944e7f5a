import Mathlib.Algebra.Order.Field.Basic
import Mathlib.Algebra.Order.Field.Power
import Mathlib.Tactic.FieldSimp
import Mathlib.Tactic.Linarith
import Mathlib.Tactic.NormNum
import Mathlib.Tactic.Positivity
import Mathlib.Tactic.Ring
import QueryCache.Decimal.Shortest

/-!
# Shortest decimals name their doubles

The search for the shortest decimal of a double always succeeds: seventeen digits are enough for one
of the two neighbours of its value to lie in its window. The windows of two doubles meet in no more
than an end, where one window begins at the other's end, and this end belongs to at most one of
them. So a double is determined, up to its sign, by the value of its shortest decimal.

## Main definitions

* `Decimal.toRat` : the value of a decimal.
* `Decimal.Window.Contains` : the reals of a window, as far as they are fractions.
* `Double.magnitude` : the bits of a double without its sign.
* `Decimal.lowEdge`, `Decimal.highEdge` : the ends of the windows of doubles on a common scale.

## Main results

* `Decimal.search_contains` : the search finds a decimal of the window if one of the grids has one.
* `Decimal.shortest_contains` : the shortest decimal of a double lies in its window.
* `Decimal.contains_inj` : no fraction lies in the windows of two magnitudes.
* `Decimal.magnitude_eq_of_shortest` : doubles with shortest decimals of one value.
-/

namespace QueryCache

namespace Decimal

/-- The value of a decimal. -/
def toRat (d : Decimal) : ℚ := d.digits * (10 : ℚ) ^ d.exponent

/-- Removing zeros at the end does not change the value. -/
theorem toRat_normalize (fuel digits : Nat) (exponent : Int) :
    (normalize fuel digits exponent).toRat = digits * (10 : ℚ) ^ exponent := by
  induction fuel generalizing digits exponent with
  | zero => rfl
  | succ fuel ih =>
    rw [normalize]
    split
    next h =>
      have hmod : digits % 10 = 0 := by simp_all
      have hdigits : digits = digits / 10 * 10 := by omega
      rw [ih, zpow_add₀ (by norm_num), zpow_one]
      nth_rewrite 2 [hdigits]
      push_cast
      ring
    next => rfl

/-! ### Windows -/

namespace Window

variable {w : Window} {c : Nat}

/-- The fractions in a window. -/
def Contains (w : Window) (r : ℚ) : Prop :=
  if w.closed then (w.low : ℚ) ≤ r * w.denominator ∧ r * w.denominator ≤ w.high
  else (w.low : ℚ) < r * w.denominator ∧ r * w.denominator < w.high

/-- A power of ten as a fraction of two natural numbers. -/
theorem zpow_ten_mul (unit : Int) :
    (10 : ℚ) ^ unit * ((10 ^ (-unit).toNat : Nat) : ℚ) = ((10 ^ unit.toNat : Nat) : ℚ) := by
  push_cast
  rw [← zpow_natCast, ← zpow_natCast, ← zpow_add₀ (by norm_num)]
  congr 1
  omega

/-- An integer lies in the window in some units exactly if that many units lie in the window. -/
theorem holds_inUnits {unit : Int} :
    (w.inUnits unit).holds c = true ↔ w.Contains (c * (10 : ℚ) ^ unit) := by
  have hpos : (0 : ℚ) < ((10 ^ (-unit).toNat : Nat) : ℚ) := by positivity
  have hscale : ((c * (w.denominator * 10 ^ unit.toNat) : Nat) : ℚ) =
      c * (10 : ℚ) ^ unit * w.denominator * ((10 ^ (-unit).toNat : Nat) : ℚ) := by
    rw [Nat.cast_mul, Nat.cast_mul, ← zpow_ten_mul]
    ring
  -- Both sides are compared with an edge after multiplication by the same power of ten.
  have hle (x : Nat) : x * 10 ^ (-unit).toNat ≤ c * (w.denominator * 10 ^ unit.toNat) ↔
      (x : ℚ) ≤ c * (10 : ℚ) ^ unit * w.denominator := by
    rw [← Nat.cast_le (α := ℚ), hscale, Nat.cast_mul, mul_le_mul_iff_left₀ hpos]
  have hge (x : Nat) : c * (w.denominator * 10 ^ unit.toNat) ≤ x * 10 ^ (-unit).toNat ↔
      c * (10 : ℚ) ^ unit * w.denominator ≤ (x : ℚ) := by
    rw [← Nat.cast_le (α := ℚ), hscale, Nat.cast_mul, mul_le_mul_iff_left₀ hpos]
  rw [holds, inUnits, Contains]
  dsimp only
  by_cases hclosed : w.closed = true
  · simp only [hclosed, if_true, Bool.and_eq_true, decide_eq_true_eq]
    exact and_congr (hle w.low) (hge w.high)
  · simp only [hclosed, if_false, Bool.false_eq_true, Bool.and_eq_true, decide_eq_true_eq]
    rw [← not_le, ← not_le, ← not_le, ← not_le]
    exact and_congr (not_congr (hge w.low)) (not_congr (hle w.high))

/-- What is chosen lies in the window. -/
theorem holds_of_nearest? (h : w.nearest? = some c) : w.holds c = true := by
  rw [nearest?] at h
  split at h
  next hlower hupper =>
    dsimp only at h
    split_ifs at h <;> cases h <;> assumption
  next hlower _ =>
    cases h
    exact hlower
  next _ hupper =>
    cases h
    exact hupper
  next => cases h

/-- A window that is wider than a unit around its value has an integer next to the value. -/
theorem exists_nearest? (hden : 0 < w.denominator) (hlow : w.low < w.value)
    (hhigh : w.value < w.high) (hwide : w.low + w.denominator < w.high) :
    ∃ c, w.nearest? = some c := by
  have hfloor := Nat.div_add_mod' w.value w.denominator
  have hrest := Nat.mod_lt w.value hden
  have hone : w.holds (w.value / w.denominator) = true ∨
      w.holds (w.value / w.denominator + 1) = true := by
    simp only [holds, Nat.add_one_mul]
    by_cases hbelow : w.low < w.value / w.denominator * w.denominator
    · left
      split <;> simp only [Bool.and_eq_true, decide_eq_true_eq] <;> omega
    · right
      split <;> simp only [Bool.and_eq_true, decide_eq_true_eq] <;> omega
  rw [nearest?]
  dsimp only
  split
  next =>
    split
    · exact ⟨_, rfl⟩
    · split <;> exact ⟨_, rfl⟩
  next => exact ⟨_, rfl⟩
  next => exact ⟨_, rfl⟩
  next hlower hupper =>
    rw [hlower, hupper] at hone
    simp at hone

end Window

/-! ### The search -/

theorem exists_of_leadingExponentBelowOne {num den : Nat} (fuel k : Nat)
    (h : den ≤ num * 10 ^ (k + fuel)) :
    ∃ j : Nat, leadingExponentBelowOne num den fuel k = -(j : Int) ∧ den ≤ num * 10 ^ j := by
  induction fuel generalizing k with
  | zero => exact ⟨k, rfl, h⟩
  | succ fuel ih =>
    rw [leadingExponentBelowOne]
    split
    next hk => exact ⟨k, rfl, hk⟩
    next => exact ih (k + 1) (by rwa [show k + 1 + fuel = k + (fuel + 1) by omega])

theorem pow_digitCount_le {n : Nat} (hn : 0 < n) : 10 ^ (digitCount n - 1) ≤ n := by
  by_cases hone : digitCount n - 1 = 0
  · rw [hone]
    exact hn
  · rw [← Nat.not_lt, ← Nat.length_toDigits_le_iff (by norm_num) (by omega)]
    show ¬ digitCount n ≤ digitCount n - 1
    omega

/-- The power of ten at the leading exponent is at most the value. -/
theorem zpow_leadingExponent_le {num den : Nat} (hden : 0 < den) (h : den ≤ num * 10 ^ (1 + 330)) :
    (10 : ℚ) ^ leadingExponent num den * den ≤ num := by
  rw [leadingExponent]
  split
  next hle =>
    have hpos : 0 < num / den := Nat.div_pos hle hden
    have hcount : 0 < digitCount (num / den) := Nat.length_toDigits_pos
    have hexponent : (digitCount (num / den) : Int) - 1 =
        ((digitCount (num / den) - 1 : Nat) : Int) := by
      omega
    rw [hexponent, zpow_natCast]
    have hmul : 10 ^ (digitCount (num / den) - 1) * den ≤ num :=
      (Nat.mul_le_mul_right den (pow_digitCount_le hpos)).trans (Nat.div_mul_le_self num den)
    exact_mod_cast hmul
  next =>
    obtain ⟨j, hj, hle⟩ := exists_of_leadingExponentBelowOne 330 1 h
    rw [hj, zpow_neg, zpow_natCast, inv_mul_le_iff₀ (by positivity), mul_comm]
    exact_mod_cast hle

/-- **The search finds a decimal of the window** if one of its grids has one. -/
theorem search_contains {w : Window} {leading : Int} (fuel n k : Nat) (hn : n ≤ k)
    (hk : k < n + fuel) (h : ∃ c, (w.inUnits (leading - (k : Int) + 1)).nearest? = some c) :
    w.Contains (search w leading fuel n).toRat := by
  induction fuel generalizing n with
  | zero => omega
  | succ fuel ih =>
    rw [search]
    split
    next c hc =>
      rw [toRat_normalize]
      exact Window.holds_inUnits.1 (Window.holds_of_nearest? hc)
    next hnone =>
      have hne : n ≠ k := by
        rintro rfl
        obtain ⟨c, hc⟩ := h
        cases hnone.symm.trans hc
      exact ih (n + 1) (by omega) (by omega)

/-! ### The windows of doubles -/

/-- The significand of the double with a magnitude. -/
def significandAt (b : Nat) : Nat :=
  if b / 2 ^ 52 = 0 then b % 2 ^ 52 else b % 2 ^ 52 + 2 ^ 52

/-- The exponent of the double with a magnitude, over the least one. -/
def scaleAt (b : Nat) : Nat := b / 2 ^ 52 - 1

/-- A quarter of a unit goes below a power of two, and half a unit below all others. -/
def belowAt (b : Nat) : Nat := if b % 2 ^ 52 = 0 ∧ 1 < b / 2 ^ 52 then 1 else 2

/-- The lower end of the window of a magnitude, in units of `2 ^ -1076`. -/
def lowEdge (b : Nat) : Nat := (4 * significandAt b - belowAt b) * 2 ^ scaleAt b

/-- The upper end of the window of a magnitude, in units of `2 ^ -1076`. -/
def highEdge (b : Nat) : Nat := (4 * significandAt b + 2) * 2 ^ scaleAt b

/-- The window of the double with a magnitude. -/
def windowAt (b : Nat) : Window :=
  Window.ofBinary (significandAt b) ((scaleAt b : Int) - 1074)
    (b % 2 ^ 52 == 0 && 1 < b / 2 ^ 52)

/-- Windows are adjacent. -/
theorem lowEdge_succ (b : Nat) : lowEdge (b + 1) = highEdge b := by
  rw [lowEdge, highEdge]
  by_cases hpower : b % 2 ^ 52 + 1 = 2 ^ 52 ∧ b / 2 ^ 52 ≠ 0
  · -- The next magnitude is a power of two: its unit is twice as large, and half of it goes below.
    have hnext : significandAt (b + 1) = 2 ^ 52 := by
      unfold significandAt
      split <;> omega
    have hthis : significandAt b = 2 ^ 53 - 1 := by
      unfold significandAt
      split <;> omega
    have hbelow : belowAt (b + 1) = 1 := by
      unfold belowAt
      split <;> omega
    have hscale : scaleAt (b + 1) = scaleAt b + 1 := by
      unfold scaleAt
      omega
    rw [hnext, hthis, hbelow, hscale, pow_succ]
    omega
  · have hnext : significandAt (b + 1) = significandAt b + 1 := by
      unfold significandAt
      split <;> split <;> omega
    have hbelow : belowAt (b + 1) = 2 := by
      unfold belowAt
      split <;> omega
    have hscale : scaleAt (b + 1) = scaleAt b := by
      unfold scaleAt
      omega
    rw [hnext, hbelow, hscale]
    congr 1

theorem lowEdge_lt_highEdge (b : Nat) : lowEdge b < highEdge b :=
  Nat.mul_lt_mul_of_pos_right (by omega) (by positivity)

theorem strictMono_lowEdge : StrictMono lowEdge :=
  strictMono_nat_of_lt_succ fun b => by
    rw [lowEdge_succ]
    exact lowEdge_lt_highEdge b

/-- All ends of windows are multiples of a half to this power. -/
def finest : Nat := 1076

/-- The windows of doubles on the common scale. -/
theorem contains_windowAt_iff {b : Nat} {r : ℚ} : (windowAt b).Contains r ↔
    if b % 2 = 0 then (lowEdge b : ℚ) ≤ r * 2 ^ finest ∧ r * 2 ^ finest ≤ highEdge b
    else (lowEdge b : ℚ) < r * 2 ^ finest ∧ r * 2 ^ finest < highEdge b := by
  have hden : (0 : ℚ) < (windowAt b).denominator := by
    simp only [windowAt, Window.ofBinary, Nat.one_shiftLeft]
    positivity
  have hpower : (2 : ℕ) ^ ((scaleAt b : Int) - 1074 - 2).toNat * 2 ^ finest =
      2 ^ scaleAt b * 2 ^ (2 - ((scaleAt b : Int) - 1074)).toNat := by
    rw [← pow_add, ← pow_add]
    congr 1
    simp only [finest]
    omega
  have hlow : ((windowAt b).low : ℚ) * 2 ^ finest = lowEdge b * (windowAt b).denominator := by
    have hnat : (windowAt b).low * 2 ^ finest = lowEdge b * (windowAt b).denominator := by
      simp only [windowAt, Window.ofBinary, Nat.one_shiftLeft, lowEdge, belowAt, mul_assoc, hpower]
      simp
    exact_mod_cast hnat
  have hhigh : ((windowAt b).high : ℚ) * 2 ^ finest = highEdge b * (windowAt b).denominator := by
    have hnat : (windowAt b).high * 2 ^ finest = highEdge b * (windowAt b).denominator := by
      simp only [windowAt, Window.ofBinary, Nat.one_shiftLeft, highEdge, mul_assoc, hpower]
    exact_mod_cast hnat
  have hclosed : (windowAt b).closed = true ↔ b % 2 = 0 := by
    simp only [windowAt, Window.ofBinary, significandAt, beq_iff_eq]
    split <;> omega
  have hunits : (0 : ℚ) < 2 ^ finest := by positivity
  have hcomm : r * 2 ^ finest * (windowAt b).denominator =
      r * (windowAt b).denominator * 2 ^ finest := by
    ring
  have hle (x y : ℚ) (hx : x * 2 ^ finest = y * (windowAt b).denominator) :
      x ≤ r * (windowAt b).denominator ↔ y ≤ r * 2 ^ finest := by
    rw [← mul_le_mul_iff_left₀ hunits, hx, ← hcomm, mul_le_mul_iff_left₀ hden]
  have hge (x y : ℚ) (hx : x * 2 ^ finest = y * (windowAt b).denominator) :
      r * (windowAt b).denominator ≤ x ↔ r * 2 ^ finest ≤ y := by
    rw [← mul_le_mul_iff_left₀ hunits, hx, ← hcomm, mul_le_mul_iff_left₀ hden]
  rw [Window.Contains]
  by_cases heven : b % 2 = 0
  · rw [if_pos (hclosed.2 heven), if_pos heven]
    exact and_congr (hle _ _ hlow) (hge _ _ hhigh)
  · rw [if_neg (mt hclosed.1 heven), if_neg heven, ← not_le, ← not_le, ← not_le, ← not_le]
    exact and_congr (not_congr (hge _ _ hlow)) (not_congr (hle _ _ hhigh))

/-- The windows of two magnitudes have no fraction in common. -/
theorem not_contains_of_lt {b b' : Nat} {r : ℚ} (hlt : b < b') (h : (windowAt b).Contains r) :
    ¬ (windowAt b').Contains r := by
  intro h'
  rw [contains_windowAt_iff] at h h'
  have hmono : (highEdge b : ℚ) ≤ lowEdge b' := by
    rw [← lowEdge_succ]
    exact_mod_cast strictMono_lowEdge.monotone (show b + 1 ≤ b' from hlt)
  -- The fraction can only be an end of both windows, which then are adjacent and both closed.
  by_cases heven : b % 2 = 0
  · rw [if_pos heven] at h
    by_cases heven' : b' % 2 = 0
    · rw [if_pos heven'] at h'
      have hends : (lowEdge (b + 1) : ℚ) = lowEdge b' := by
        rw [lowEdge_succ]
        exact le_antisymm hmono (h'.1.trans h.2)
      have hnext : b + 1 = b' := strictMono_lowEdge.injective (by exact_mod_cast hends)
      omega
    · rw [if_neg heven'] at h'
      linarith [h.2, h'.1]
  · rw [if_neg heven] at h
    split_ifs at h' <;> linarith [h.2, h'.1]

/-- **No fraction lies in the windows of two magnitudes.** -/
theorem contains_inj {b b' : Nat} {r : ℚ} (h : (windowAt b).Contains r)
    (h' : (windowAt b').Contains r) : b = b' := by
  rcases lt_trichotomy b b' with hlt | heq | hgt
  · exact (not_contains_of_lt hlt h h').elim
  · exact heq
  · exact (not_contains_of_lt hgt h' h).elim

/-! ### Seventeen digits are enough -/

theorem significandAt_pos {b : Nat} (hb : 0 < b) : 0 < significandAt b := by
  unfold significandAt
  split <;> omega

theorem belowAt_pos (b : Nat) : 0 < belowAt b := by
  unfold belowAt
  split <;> omega

/-- The value of a window is inside it, and the window is wide in comparison. -/
theorem windowAt_bounds {b : Nat} (hb : 0 < b) :
    0 < (windowAt b).denominator ∧ (windowAt b).low < (windowAt b).value ∧
      (windowAt b).value < (windowAt b).high ∧
        (windowAt b).value + (windowAt b).low * 10 ^ 16 < (windowAt b).high * 10 ^ 16 := by
  have hpos := significandAt_pos hb
  have hbelow := belowAt_pos b
  have hwide : 4 * significandAt b + (4 * significandAt b - belowAt b) * 10 ^ 16 <
      (4 * significandAt b + 2) * 10 ^ 16 := by
    unfold significandAt at hpos ⊢
    unfold belowAt
    split_ifs at hpos ⊢ <;> omega
  obtain ⟨scale, hscale, hlow, hvalue, hhigh⟩ : ∃ scale, 0 < scale ∧
      (windowAt b).low = (4 * significandAt b - belowAt b) * scale ∧
        (windowAt b).value = 4 * significandAt b * scale ∧
          (windowAt b).high = (4 * significandAt b + 2) * scale := by
    refine ⟨1 <<< ((scaleAt b : Int) - 1074 - 2).toNat, ?_, ?_, rfl, rfl⟩
    · rw [Nat.one_shiftLeft]
      positivity
    · simp [windowAt, Window.ofBinary, belowAt]
  refine ⟨?_, ?_, ?_, ?_⟩
  · simp only [windowAt, Window.ofBinary, Nat.one_shiftLeft]
    positivity
  · rw [hlow, hvalue]
    exact Nat.mul_lt_mul_of_pos_right (by omega) hscale
  · rw [hvalue, hhigh]
    exact Nat.mul_lt_mul_of_pos_right (by omega) hscale
  · rw [hlow, hvalue, hhigh]
    calc 4 * significandAt b * scale + (4 * significandAt b - belowAt b) * scale * 10 ^ 16
        = (4 * significandAt b + (4 * significandAt b - belowAt b) * 10 ^ 16) * scale := by ring
      _ < (4 * significandAt b + 2) * 10 ^ 16 * scale :=
          Nat.mul_lt_mul_of_pos_right hwide hscale
      _ = (4 * significandAt b + 2) * scale * 10 ^ 16 := by ring

/-- Windows are not too small for the search of their leading exponent. -/
theorem denominator_windowAt_le {b : Nat} (hb : 0 < b) :
    (windowAt b).denominator ≤ (windowAt b).value * 10 ^ (1 + 330) := by
  obtain ⟨-, hlow, -, -⟩ := windowAt_bounds hb
  have hfinest : (windowAt b).denominator ≤ 2 ^ finest := by
    simp only [windowAt, Window.ofBinary, Nat.one_shiftLeft]
    refine Nat.pow_le_pow_right (by omega) ?_
    simp only [finest]
    omega
  have hexponent : 10 * 33 ≤ 1 + 330 := by norm_num
  have hten : 2 ^ finest ≤ 10 ^ (1 + 330) :=
    calc 2 ^ finest ≤ 2 ^ (33 * 33) := Nat.pow_le_pow_right (by omega) (by decide)
      _ = (2 ^ 33) ^ 33 := pow_mul 2 33 33
      _ ≤ (10 ^ 10) ^ 33 := Nat.pow_le_pow_left (by norm_num) 33
      _ = 10 ^ (10 * 33) := (pow_mul 10 10 33).symm
      _ ≤ 10 ^ (1 + 330) := pow_le_pow_right₀ (by norm_num) hexponent
  exact (hfinest.trans hten).trans (Nat.le_mul_of_pos_left _ (by omega))

/-- **The shortest decimal of a double lies in its window.** -/
theorem shortest_contains {b : Nat} (hb : 0 < b) :
    (windowAt b).Contains (search (windowAt b)
      (leadingExponent (windowAt b).value (windowAt b).denominator) 17 1).toRat := by
  obtain ⟨hden, hlow, hhigh, hwide⟩ := windowAt_bounds hb
  generalize hleading : leadingExponent (windowAt b).value (windowAt b).denominator = leading
  have hpower := zpow_leadingExponent_le hden (denominator_windowAt_le hb)
  rw [hleading] at hpower
  refine search_contains 17 1 17 (by omega) (by omega) ?_
  -- On the grid of seventeen digits the window is wider than a unit.
  generalize hunit : leading - ((17 : Nat) : Int) + 1 = unit
  have hup : (0 : ℚ) < ((10 ^ (-unit).toNat : Nat) : ℚ) := by positivity
  have hone : (10 : ℚ) ^ unit * 10 ^ 16 = 10 ^ leading := by
    rw [← zpow_natCast, ← zpow_add₀ (by norm_num), ← hunit]
    congr 1
    omega
  have hgap : ((windowAt b).low : ℚ) + (windowAt b).denominator * (10 : ℚ) ^ unit <
      (windowAt b).high := by
    have hwide' : ((windowAt b).value : ℚ) + (windowAt b).low * 10 ^ 16 <
        (windowAt b).high * 10 ^ 16 := by
      exact_mod_cast hwide
    rw [← hone] at hpower
    linarith
  have hupNat : 0 < Nat.pow 10 (-unit).toNat := Nat.pow_pos (by norm_num)
  refine Window.exists_nearest? (Nat.mul_pos hden (Nat.pow_pos (by norm_num)))
    (Nat.mul_lt_mul_of_pos_right hlow hupNat) (Nat.mul_lt_mul_of_pos_right hhigh hupNat) ?_
  have hcast : (((windowAt b).low * 10 ^ (-unit).toNat +
        (windowAt b).denominator * 10 ^ unit.toNat : Nat) : ℚ) <
      (((windowAt b).high * 10 ^ (-unit).toNat : Nat) : ℚ) := by
    rw [Nat.cast_add, Nat.cast_mul, Nat.cast_mul, Nat.cast_mul,
      ← Window.zpow_ten_mul unit, ← mul_assoc, ← add_mul]
    exact mul_lt_mul_of_pos_right hgap hup
  exact_mod_cast hcast

/-- What lies in the window of a magnitude is positive. -/
theorem pos_of_contains {b : Nat} {r : ℚ} (hb : 0 < b) (h : (windowAt b).Contains r) : 0 < r := by
  have hlow : (0 : ℚ) < lowEdge b := by
    have hmono := strictMono_lowEdge.monotone (show 1 ≤ b from hb)
    have hone : 0 < lowEdge 1 := by decide
    exact_mod_cast hone.trans_le hmono
  rw [contains_windowAt_iff] at h
  have hscaled : 0 < r * 2 ^ finest := by
    split_ifs at h
    · exact hlow.trans_le h.1
    · exact hlow.trans h.1
  exact pos_of_mul_pos_left hscaled (by positivity)

end Decimal

/-! ### The fields of a double -/

namespace Double

/-- The bits of a double without its sign. -/
def magnitude (d : Double) : Nat := d.bits.toNat % 2 ^ 63

theorem exponentField_eq (d : Double) : d.exponentField = d.magnitude / 2 ^ 52 := by
  have hmask : d.exponentField = d.bits.toNat / 2 ^ 52 % 2 ^ 11 := by
    rw [exponentField, UInt64.toNat_and, UInt64.toNat_shiftRight, ← Nat.shiftRight_eq_div_pow]
    exact Nat.and_two_pow_sub_one_eq_mod _ 11
  rw [hmask, magnitude]
  omega

theorem fractionField_eq (d : Double) : d.fractionField = d.magnitude % 2 ^ 52 := by
  have hmask : d.fractionField = d.bits.toNat % 2 ^ 52 := by
    rw [fractionField, UInt64.toNat_and]
    exact Nat.and_two_pow_sub_one_eq_mod _ 52
  rw [hmask, magnitude]
  omega

theorem isZero_iff (d : Double) : d.isZero = true ↔ d.magnitude = 0 := by
  have hmask : (d.bits &&& 0x7fffffffffffffff).toNat = d.magnitude := by
    rw [UInt64.toNat_and]
    exact Nat.and_two_pow_sub_one_eq_mod _ 63
  rw [isZero, beq_iff_eq, ← UInt64.toNat_inj, hmask]
  rfl

theorem isNegative_iff (d : Double) : d.isNegative = true ↔ d.bits.toNat / 2 ^ 63 = 1 := by
  have hshift : (d.bits >>> 63).toNat = d.bits.toNat / 2 ^ 63 := by
    rw [UInt64.toNat_shiftRight, ← Nat.shiftRight_eq_div_pow]
    rfl
  rw [isNegative, beq_iff_eq, ← UInt64.toNat_inj, hshift]
  rfl

/-- A double is its sign and its magnitude. -/
theorem ext_of_magnitude {d d' : Double} (hsign : d.isNegative = d'.isNegative)
    (h : d.magnitude = d'.magnitude) : d = d' := by
  have hbound := d.bits.toNat_lt
  have hbound' := d'.bits.toNat_lt
  rw [Bool.eq_iff_iff, isNegative_iff, isNegative_iff] at hsign
  rw [magnitude, magnitude] at h
  have hbits : d.bits.toNat = d'.bits.toNat := by omega
  exact congrArg Double.mk (UInt64.toNat_inj.1 hbits)

end Double

namespace Decimal

/-- The search for the shortest decimal starts from the window of the magnitude. -/
theorem shortest_eq (d : Double) : shortest d = search (windowAt d.magnitude)
    (leadingExponent (windowAt d.magnitude).value (windowAt d.magnitude).denominator) 17 1 := by
  have hexponent : (if d.magnitude / 2 ^ 52 = 0 then (-1074 : Int)
      else ((d.magnitude / 2 ^ 52 : Nat) : Int) - 1075) = (scaleAt d.magnitude : Int) - 1074 := by
    unfold scaleAt
    split <;> omega
  rw [shortest, d.exponentField_eq, d.fractionField_eq]
  simp only [hexponent]
  rfl

section Shortest

variable {d d' : Double}

theorem magnitude_pos (hd : d.isZero = false) : 0 < d.magnitude := by
  have hne := mt d.isZero_iff.2 (by simp [hd])
  omega

theorem contains_shortest (hd : d.isZero = false) :
    (windowAt d.magnitude).Contains (shortest d).toRat := by
  rw [shortest_eq]
  exact shortest_contains (magnitude_pos hd)

/-- The shortest decimal of a double other than zero is positive. -/
theorem toRat_shortest_pos (hd : d.isZero = false) : 0 < (shortest d).toRat :=
  pos_of_contains (magnitude_pos hd) (contains_shortest hd)

/-- **Doubles with shortest decimals of one value have one magnitude.** -/
theorem magnitude_eq_of_shortest (hd : d.isZero = false) (hd' : d'.isZero = false)
    (h : (shortest d).toRat = (shortest d').toRat) : d.magnitude = d'.magnitude :=
  contains_inj (contains_shortest hd) (h ▸ contains_shortest hd')

end Shortest

end Decimal

end QueryCache
