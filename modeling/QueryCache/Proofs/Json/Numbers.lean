import Mathlib
import QueryCache.Json.Printer
import QueryCache.Proofs.Decimal.Shortest
import QueryCache.Proofs.Joined

/-!
# The texts of numbers

A finite double is written as a decimal numeral: digits before the point, digits after it, and an
exponent, in one of five layouts. All layouts of a decimal have the decimal's value, and a numeral
can be taken apart again. As the shortest decimal says which double was meant, no two numbers have
one text; a double is told from an integer by its point or its exponent.

## Main definitions

* `Numeral` : the numerals of doubles, with `Numeral.text` and `Numeral.value`.

## Main results

* `Numeral.text_injective` : a numeral can be taken apart.
* `Double.exists_numeral` : a double is written as a numeral that has its shortest decimal's value.
* `Number.render_inj` : different numbers have different texts.
-/

namespace QueryCache

/-! ### Numerals -/

/-- An unsigned decimal numeral with a fraction, an exponent or both. -/
structure Numeral where
  whole : List Char
  fraction : List Char
  /-- Whether the exponent is negative, and its digits. -/
  power : Option (Bool × List Char)
  isDigit_whole : ∀ c ∈ whole, c.isDigit = true
  isDigit_fraction : ∀ c ∈ fraction, c.isDigit = true
  isDigit_power : ∀ p ∈ power, ∀ c ∈ p.2, c.isDigit = true
  whole_ne_nil : whole ≠ []
  marked : fraction = [] → power ≠ none

namespace Numeral

/-- The exponent as it is written. -/
def powerText : Option (Bool × List Char) → List Char
  | none => []
  | some (down, digits) => 'e' :: (if down then '-' else '+') :: digits

/-- The value of an exponent. -/
def powerValue : Option (Bool × List Char) → ℤ
  | none => 0
  | some (true, digits) => -(Nat.ofDigitChars 10 digits 0 : ℤ)
  | some (false, digits) => (Nat.ofDigitChars 10 digits 0 : ℤ)

/-- The fraction as it is written. -/
def fractionText : List Char → List Char
  | [] => []
  | digits => '.' :: digits

/-- The characters of a numeral. -/
def text (n : Numeral) : List Char := n.whole ++ (fractionText n.fraction ++ powerText n.power)

/-- The value of a numeral. -/
def value (n : Numeral) : ℚ :=
  Nat.ofDigitChars 10 (n.whole ++ n.fraction) 0 *
    (10 : ℚ) ^ (powerValue n.power - n.fraction.length)

theorem powerText_injective : Function.Injective powerText := by
  rintro (_ | ⟨down, digits⟩) (_ | ⟨down', digits'⟩) h
  · rfl
  · cases h
  · cases h
  · cases down <;> cases down' <;> simp_all [powerText]

theorem not_isDigit_head_powerText (power : Option (Bool × List Char)) :
    ∀ c ∈ (powerText power).head?, c.isDigit = false := by
  rcases power with _ | ⟨down, digits⟩ <;> simp [powerText]

/-- **A numeral can be taken apart.** -/
theorem text_injective : Function.Injective text := by
  rintro n m h
  have hrest (k : Numeral) :
      ∀ c ∈ (fractionText k.fraction ++ powerText k.power).head?, c.isDigit = false := by
    rcases hfraction : k.fraction with _ | ⟨c, digits⟩
    · exact not_isDigit_head_powerText k.power
    · simp [fractionText]
  obtain ⟨hwhole, h⟩ := append_run_inj n.isDigit_whole m.isDigit_whole (hrest n) (hrest m) h
  have hparts : n.fraction = m.fraction ∧ n.power = m.power := by
    have hn := n.isDigit_fraction
    have hm := m.isDigit_fraction
    generalize n.fraction = x at h hn
    generalize m.fraction = y at h hm
    have hpoint (p : Option (Bool × List Char)) (r : List Char) : powerText p ≠ '.' :: r := by
      rcases p with _ | ⟨down, digits⟩ <;> simp [powerText]
    rcases x with _ | ⟨c, x⟩ <;> rcases y with _ | ⟨d, y⟩
    · exact ⟨rfl, powerText_injective h⟩
    · exact (hpoint _ _ h).elim
    · exact (hpoint _ _ h.symm).elim
    · obtain ⟨hxy, hpower⟩ := append_run_inj hn hm (not_isDigit_head_powerText _)
        (not_isDigit_head_powerText _) (List.cons.inj h).2
      exact ⟨hxy, powerText_injective hpower⟩
  cases n
  cases m
  simp_all

/-- A numeral begins with a digit. -/
theorem exists_cons_text (n : Numeral) : ∃ c rest, n.text = c :: rest ∧ c.isDigit = true := by
  obtain ⟨c, rest, hwhole⟩ := List.exists_cons_of_ne_nil n.whole_ne_nil
  refine ⟨c, _, by rw [text, hwhole, List.cons_append], n.isDigit_whole c ?_⟩
  rw [hwhole]
  exact List.mem_cons_self

/-- The characters of numbers. -/
def isNumeric (c : Char) : Bool := c.isDigit || c ∈ ['-', '+', '.', 'e']

theorem isNumeric_of_mem_text (n : Numeral) : ∀ c ∈ n.text, isNumeric c = true := by
  have hdigit {c : Char} (hc : c.isDigit = true) : isNumeric c = true := by
    rw [isNumeric, hc, Bool.true_or]
  intro c hc
  rw [text, List.mem_append, List.mem_append] at hc
  rcases hc with hc | hc | hc
  · exact hdigit (n.isDigit_whole c hc)
  · have hfraction := n.isDigit_fraction c
    cases hcons : n.fraction with
    | nil => simp [hcons, fractionText] at hc
    | cons first rest =>
      rw [hcons] at hc hfraction
      rcases List.mem_cons.1 hc with rfl | hc
      · rfl
      · exact hdigit (hfraction hc)
  · cases hpower : n.power with
    | none => simp [hpower, powerText] at hc
    | some p =>
      rw [hpower] at hc
      rcases List.mem_cons.1 hc with rfl | hc
      · rfl
      rcases List.mem_cons.1 hc with rfl | hc
      · cases p.1 <;> rfl
      · exact hdigit (n.isDigit_power p hpower c hc)

/-- A numeral has a point or an exponent. -/
theorem exists_mark (n : Numeral) : ∃ c ∈ n.text, c = '.' ∨ c = 'e' := by
  by_cases hfraction : n.fraction = []
  · obtain ⟨p, hpower⟩ := Option.ne_none_iff_exists'.1 (n.marked hfraction)
    exact ⟨'e', by simp [text, hpower, powerText], .inr rfl⟩
  · obtain ⟨c, rest, hcons⟩ := List.exists_cons_of_ne_nil hfraction
    exact ⟨'.', by simp [text, hcons, fractionText], .inl rfl⟩

end Numeral

/-! ### Layouts of a decimal -/

section Layouts

theorem isDigit_toDigits (n : Nat) : ∀ c ∈ Nat.toDigits 10 n, c.isDigit = true :=
  fun _ hc => Nat.isDigit_of_mem_toDigits (by norm_num) (by norm_num) hc

/-- Zeros in front do not count. -/
theorem ofDigitChars_zeros_append (k n : Nat) :
    Nat.ofDigitChars 10 (List.replicate k '0' ++ Nat.toDigits 10 n) 0 = n := by
  rw [Nat.ofDigitChars_append, Nat.ofDigitChars_replicate_zero, Nat.mul_zero]
  exact Nat.ofDigitChars_ten_toDigits

theorem ofDigitChars_append_zeros (k n : Nat) :
    Nat.ofDigitChars 10 (Nat.toDigits 10 n ++ List.replicate k '0') 0 = 10 ^ k * n := by
  rw [Nat.ofDigitChars_append, Nat.ofDigitChars_replicate_zero, Nat.ofDigitChars_ten_toDigits]

/-- Digits with a point between them. -/
theorem exists_numeral_of_point (whole fraction : List Char) (hwhole : whole ≠ [])
    (hfraction : fraction ≠ []) (hdigits : ∀ c ∈ whole ++ fraction, c.isDigit = true) :
    ∃ n : Numeral, n.text = whole ++ '.' :: fraction ∧
      n.value = Nat.ofDigitChars 10 (whole ++ fraction) 0 *
        (10 : ℚ) ^ (-(fraction.length : ℤ)) := by
  refine ⟨{ whole, fraction
            power := none
            isDigit_whole := fun c hc => hdigits c (List.mem_append_left _ hc)
            isDigit_fraction := fun c hc => hdigits c (List.mem_append_right _ hc)
            isDigit_power := by simp
            whole_ne_nil := hwhole
            marked := fun hnil => (hfraction hnil).elim }, ?_, ?_⟩
  · obtain ⟨c, rest, rfl⟩ := List.exists_cons_of_ne_nil hfraction
    simp [Numeral.text, Numeral.fractionText, Numeral.powerText]
  · rw [Numeral.value, Numeral.powerValue, zero_sub]

variable (d : Decimal) {leading : ℤ}
  (hleading : leading = (Decimal.digitCount d.digits : ℤ) - 1 + d.exponent)
include hleading

/-- The positional layout is a numeral of the decimal's value. -/
theorem exists_numeral_positional : ∃ n : Numeral,
    n.text = (Double.positional d leading).toList ∧ n.value = d.toRat := by
  rw [Decimal.digitCount] at hleading
  by_cases hsmall : leading < 0
  · -- All digits are behind the point, and zeros in front of them.
    obtain ⟨n, htext, hvalue⟩ := exists_numeral_of_point ['0']
      (List.replicate (-leading - 1).toNat '0' ++ Nat.toDigits 10 d.digits) (by simp) (by simp)
      (by simpa [or_imp, forall_and] using isDigit_toDigits d.digits)
    refine ⟨n, ?_, ?_⟩
    · rw [htext, Double.positional, if_pos hsmall]
      simp [Double.zeros, Double.digitText]
    · have hall : Nat.ofDigitChars 10 (['0'] ++ (List.replicate (-leading - 1).toNat '0' ++
          Nat.toDigits 10 d.digits)) 0 = d.digits :=
        ofDigitChars_zeros_append ((-leading - 1).toNat + 1) d.digits
      rw [hvalue, hall, Decimal.toRat, List.length_append, List.length_replicate]
      congr 2
      omega
  by_cases hlarge : 0 ≤ d.exponent
  · -- All digits are before the point, and zeros between them and the point.
    obtain ⟨n, htext, hvalue⟩ := exists_numeral_of_point
      (Nat.toDigits 10 d.digits ++ List.replicate d.exponent.toNat '0') ['0'] (by simp) (by simp)
      (by simpa [or_imp, forall_and] using isDigit_toDigits d.digits)
    refine ⟨n, ?_, ?_⟩
    · rw [htext, Double.positional, if_neg hsmall, if_pos hlarge]
      simp [Double.zeros, Double.digitText]
    · have hpower : (10 : ℚ) ^ d.exponent = 10 ^ d.exponent.toNat := by
        rw [← zpow_natCast, Int.toNat_of_nonneg hlarge]
      rw [hvalue, List.append_assoc, ← List.replicate_succ', ofDigitChars_append_zeros,
        Decimal.toRat, hpower]
      push_cast
      norm_num
      ring
  · -- The point is between the digits.
    have hsplit : leading.toNat + 1 < (Nat.toDigits 10 d.digits).length := by omega
    obtain ⟨n, htext, hvalue⟩ := exists_numeral_of_point
      ((Nat.toDigits 10 d.digits).take (leading.toNat + 1))
      ((Nat.toDigits 10 d.digits).drop (leading.toNat + 1)) (by simp)
      (by rw [ne_eq, List.drop_eq_nil_iff]; omega)
      (by simpa only [List.take_append_drop] using isDigit_toDigits d.digits)
    refine ⟨n, ?_, ?_⟩
    · rw [htext, Double.positional, if_neg hsmall, if_neg hlarge]
      simp [Double.digitText]
    · rw [hvalue, List.take_append_drop, Nat.ofDigitChars_ten_toDigits, Decimal.toRat,
        List.length_drop]
      congr 2
      omega

/-- The scientific layout is a numeral of the decimal's value. -/
theorem exists_numeral_scientific : ∃ n : Numeral,
    n.text = (Double.scientific d leading).toList ∧ n.value = d.toRat := by
  rw [Decimal.digitCount] at hleading
  refine ⟨{ whole := (Nat.toDigits 10 d.digits).take 1
            fraction := (Nat.toDigits 10 d.digits).drop 1
            power := some (decide (leading < 0), Nat.toDigits 10 leading.natAbs)
            isDigit_whole := fun c hc => isDigit_toDigits _ c (List.mem_of_mem_take hc)
            isDigit_fraction := fun c hc => isDigit_toDigits _ c (List.mem_of_mem_drop hc)
            isDigit_power := by simpa using isDigit_toDigits leading.natAbs
            whole_ne_nil := by simp
            marked := by simp }, ?_, ?_⟩
  · have hsign : (if leading < 0 then "-" else "+").toList =
        [if leading < 0 then '-' else '+'] := by
      split <;> rfl
    simp only [Numeral.text, Numeral.powerText, Double.scientific, Double.digitText,
      String.toList_append, String.toList_ofList, hsign, List.append_assoc, decide_eq_true_eq]
    congr 1
    cases (Nat.toDigits 10 d.digits).drop 1 with
    | nil => rfl
    | cons c rest => simp [Numeral.fractionText]
  · have hpower : Numeral.powerValue (some (decide (leading < 0), Nat.toDigits 10 leading.natAbs)) =
        leading := by
      by_cases hsmall : leading < 0 <;>
        simp only [Numeral.powerValue, hsmall, decide_true, decide_false,
          Nat.ofDigitChars_ten_toDigits] <;> omega
    have hpos := Nat.length_toDigits_pos (b := 10) (n := d.digits)
    rw [Numeral.value, hpower, List.take_append_drop, Nat.ofDigitChars_ten_toDigits, Decimal.toRat,
      List.length_drop]
    congr 2
    omega

end Layouts

/-! ### Doubles -/

/-- The exponent of the first digit of a double's shortest decimal. -/
def Decimal.leading (d : Double) : ℤ :=
  (Decimal.digitCount (Decimal.shortest d).digits : ℤ) - 1 + (Decimal.shortest d).exponent

namespace Double

variable {d d' : Double}

/-- **A double is written as a numeral** that has the value of its shortest decimal. -/
theorem exists_numeral (hd : d.isFinite = true) : ∃ n : Numeral,
    d.render.toList = (if d.isNegative then ['-'] else []) ++ n.text ∧
      n.value = if d.isZero then 0 else (Decimal.shortest d).toRat := by
  have hsign : (if d.isNegative then "-" else "").toList =
      if d.isNegative then ['-'] else [] := by
    split <;> rfl
  by_cases hzero : d.isZero = true
  · obtain ⟨n, htext, hvalue⟩ := exists_numeral_of_point ['0'] ['0'] (by simp) (by simp) (by simp)
    have hdigits : Nat.ofDigitChars 10 (['0'] ++ ['0']) 0 = 0 := rfl
    refine ⟨n, ?_, by rw [hvalue, hdigits, if_pos hzero, Nat.cast_zero, zero_mul]⟩
    simp only [render, hd, hzero, Bool.not_true, Bool.false_eq_true, if_false, if_true,
      String.toList_append, hsign, htext]
    rfl
  · obtain ⟨n, htext, hvalue⟩ : ∃ n : Numeral,
        n.text = (if -5 ≤ Decimal.leading d && Decimal.leading d ≤ 15 then
          positional (Decimal.shortest d) (Decimal.leading d)
          else scientific (Decimal.shortest d) (Decimal.leading d)).toList ∧
        n.value = (Decimal.shortest d).toRat := by
      split
      · exact exists_numeral_positional (Decimal.shortest d) rfl
      · exact exists_numeral_scientific (Decimal.shortest d) rfl
    refine ⟨n, ?_, by rw [hvalue, if_neg hzero]⟩
    simp only [render, hd, hzero, Bool.not_true, Bool.false_eq_true, if_false,
      String.toList_append, hsign, htext]
    rfl

/-- **Finite doubles with one text are one double.** -/
theorem render_inj (hd : d.isFinite = true) (hd' : d'.isFinite = true)
    (h : d.render = d'.render) : d = d' := by
  obtain ⟨n, htext, hvalue⟩ := exists_numeral hd
  obtain ⟨n', htext', hvalue'⟩ := exists_numeral hd'
  rw [h, htext'] at htext
  have hparts : d.isNegative = d'.isNegative ∧ n.text = n'.text := by
    obtain ⟨c, rest, hcons, hdigit⟩ := n.exists_cons_text
    obtain ⟨c', rest', hcons', hdigit'⟩ := n'.exists_cons_text
    have hne {x : Char} (hx : x.isDigit = true) : x ≠ '-' := by
      rintro rfl
      cases hx
    rw [hcons, hcons'] at htext ⊢
    cases hsign : d.isNegative <;> cases hsign' : d'.isNegative <;>
      simp only [hsign, hsign', Bool.false_eq_true, if_true, if_false, List.nil_append,
        List.singleton_append, List.cons.injEq] at htext
    · exact ⟨rfl, by rw [htext.1, htext.2]⟩
    · exact (hne hdigit htext.1.symm).elim
    · exact (hne hdigit' htext.1).elim
    · exact ⟨rfl, by rw [htext.2.1, htext.2.2]⟩
  obtain ⟨hsign, htext⟩ := hparts
  rw [Numeral.text_injective htext, hvalue'] at hvalue
  refine ext_of_magnitude hsign ?_
  cases hzero : d.isZero <;> cases hzero' : d'.isZero <;>
    simp only [hzero, hzero', Bool.false_eq_true, if_true, if_false] at hvalue
  · exact Decimal.magnitude_eq_of_shortest hzero hzero' hvalue.symm
  · exact ((Decimal.toRat_shortest_pos hzero).ne hvalue).elim
  · exact ((Decimal.toRat_shortest_pos hzero').ne' hvalue).elim
  · rw [d.isZero_iff.1 hzero, d'.isZero_iff.1 hzero']

end Double

/-! ### Numbers -/

namespace Number

/-- Neither infinite nor a NaN. -/
def isFinite : Number → Bool
  | .int _ => true
  | .double d => d.isFinite

variable {m n : Number}

/-- An integer is written with digits, and a sign in front of them. -/
theorem isDigit_or_of_mem_toString {n : ℤ} {c : Char} (hc : c ∈ (toString n).toList) :
    c.isDigit = true ∨ c = '-' := by
  rw [Int.toString_eq_repr, Int.repr_eq_if] at hc
  split at hc
  · rw [Nat.toList_repr] at hc
    exact .inl (isDigit_toDigits _ c hc)
  · rw [String.toList_append, List.mem_append, Nat.toList_repr] at hc
    rcases hc with hc | hc
    · exact .inr (List.mem_singleton.1 hc)
    · exact .inl (isDigit_toDigits _ c hc)

theorem isNumeric_of_mem_render (hn : n.isFinite = true) :
    ∀ c ∈ n.render.toList, Numeral.isNumeric c = true := by
  intro c hc
  rw [Numeral.isNumeric]
  cases n with
  | int n =>
    rcases isDigit_or_of_mem_toString hc with hdigit | rfl
    · rw [hdigit, Bool.true_or]
    · rfl
  | double d =>
    obtain ⟨numeral, htext, -⟩ := Double.exists_numeral hn
    rw [render, htext, List.mem_append] at hc
    rcases hc with hc | hc
    · have hminus : c = '-' := by
        split at hc
        · exact List.mem_singleton.1 hc
        · cases hc
      rw [hminus]
      rfl
    · exact numeral.isNumeric_of_mem_text c hc

theorem render_ne_nil (hn : n.isFinite = true) : n.render.toList ≠ [] := by
  cases n with
  | int n =>
    rw [render, Int.toString_eq_repr, Int.repr_eq_if]
    split
    · rw [Nat.toList_repr]
      exact List.ne_nil_of_length_pos Nat.length_toDigits_pos
    · simp
  | double d =>
    obtain ⟨numeral, htext, -⟩ := Double.exists_numeral hn
    obtain ⟨c, rest, hcons, -⟩ := numeral.exists_cons_text
    rw [render, htext, hcons]
    simp

/-- No double is written like an integer. -/
theorem render_int_ne_double {k : ℤ} {d : Double} (hd : d.isFinite = true) :
    (int k).render ≠ (double d).render := by
  intro h
  obtain ⟨numeral, htext, -⟩ := Double.exists_numeral hd
  obtain ⟨c, hc, hmark⟩ := numeral.exists_mark
  have hmem : c ∈ (toString k).toList := by
    rw [show toString k = d.render from h, htext]
    exact List.mem_append_right _ hc
  rcases isDigit_or_of_mem_toString hmem with hdigit | rfl
  · rcases hmark with rfl | rfl <;> cases hdigit
  · rcases hmark with hmark | hmark <;> cases hmark

/-- **Finite numbers with one text are one number.** -/
theorem render_inj (hm : m.isFinite = true) (hn : n.isFinite = true)
    (h : m.render = n.render) : m = n := by
  rcases m with k | d <;> rcases n with k' | d'
  · exact congrArg int (Int.repr_injective h)
  · exact (render_int_ne_double hn h).elim
  · exact (render_int_ne_double hm h.symm).elim
  · exact congrArg double (Double.render_inj hm hn h)

end Number

end QueryCache
