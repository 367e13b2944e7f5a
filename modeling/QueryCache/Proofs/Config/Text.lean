import Mathlib
import QueryCache.Config
import QueryCache.Proofs.Text.Blank

/-!
# What the text of a variable stands for

A number is spelled by digits, after a plus sign or without one, and a policy by its name in letters
of either case. Blanks around them do not count.

## Main definitions

* `Config.NamesNumber`, `Config.NamesPolicy` : a text that stands for a number, or for a policy.

## Main results

* `Config.parseNumber?_eq_some_iff`, `Config.parse?_eq_some_iff` : which texts can be read.
-/

namespace QueryCache.Config

variable {text : String} {n : Nat} {policy : ErrorPolicy}

/-! ### Numbers -/

/-- A text names a number of 64 bits: digits, after a plus sign or without one, between blanks. -/
def NamesNumber (text : String) (n : Nat) : Prop :=
  ∃ sign digits, (sign = [] ∨ sign = ['+']) ∧ digits ≠ [] ∧ (∀ c ∈ digits, c.isDigit = true) ∧
    Padded (sign ++ digits) text.toList ∧ n = Nat.ofDigitChars 10 digits 0 ∧
    n ≤ 0xffffffffffffffff

theorem digitsValue_eq (digits : List Char) :
    digitsValue digits = Nat.ofDigitChars 10 digits 0 := by
  simp only [digitsValue, Nat.ofDigitChars, Nat.mul_comm 10]

theorem isBlank_of_isDigit {d : Char} (h : d.isDigit = true) : isBlank d = false := by
  simp only [Char.isDigit, Bool.and_eq_true, decide_eq_true_eq, ge_iff_le,
    UInt32.le_iff_toNat_le] at h
  have hdigit : 48 ≤ d.toNat ∧ d.toNat ≤ 57 := h
  exact isBlank_of_visible (by omega)

/-- Digits spell a number that may be too large. -/
theorem ite_digits_eq_some_iff (digits : List Char) (n : Nat) :
    (if digits.isEmpty || !digits.all Char.isDigit then none
      else
        let n := digitsValue digits
        if n ≤ 0xffffffffffffffff then some n else none) = some n ↔
      digits ≠ [] ∧ (∀ d ∈ digits, d.isDigit = true) ∧ n = Nat.ofDigitChars 10 digits 0 ∧
        n ≤ 0xffffffffffffffff := by
  rw [digitsValue_eq]
  by_cases hdigits : digits ≠ [] ∧ ∀ d ∈ digits, d.isDigit = true
  · obtain ⟨hne, hall⟩ := hdigits
    have hgood : ¬ (digits.isEmpty || !digits.all Char.isDigit) = true := by simpa [hne] using hall
    rw [if_neg hgood, and_iff_right hne, and_iff_right hall]
    simp only [Option.ite_none_right_eq_some, Option.some.injEq]
    constructor
    · rintro ⟨hmax, rfl⟩
      exact ⟨rfl, hmax⟩
    · rintro ⟨rfl, hmax⟩
      exact ⟨hmax, rfl⟩
  · have hbad : (digits.isEmpty || !digits.all Char.isDigit) = true := by
      by_contra hgood
      exact hdigits (by simpa using hgood)
    rw [if_pos hbad]
    exact iff_of_false nofun fun h => hdigits ⟨h.1, h.2.1⟩

/-- A word without the plus sign that it may begin with. -/
def withoutSign (word : List Char) : List Char :=
  match word with
  | '+' :: rest => rest
  | _ => word

theorem exists_sign (word : List Char) :
    ∃ sign, (sign = [] ∨ sign = ['+']) ∧ word = sign ++ withoutSign word := by
  unfold withoutSign
  split
  · exact ⟨['+'], .inr rfl, rfl⟩
  · exact ⟨[], .inl rfl, rfl⟩

theorem withoutSign_append {sign digits : List Char} (hsign : sign = [] ∨ sign = ['+'])
    (hdigits : ∀ d ∈ digits, d.isDigit = true) : withoutSign (sign ++ digits) = digits := by
  rcases hsign with rfl | rfl
  · rw [List.nil_append]
    unfold withoutSign
    split
    · cases hdigits '+' List.mem_cons_self
    · rfl
  · rfl

/-- **A number is read** from exactly those texts that name it. -/
theorem parseNumber?_eq_some_iff : parseNumber? text = some n ↔ NamesNumber text n := by
  have hread : parseNumber? text = some n ↔ _ :=
    ite_digits_eq_some_iff (withoutSign (trimBlankChars text.toList)) n
  rw [hread]
  constructor
  · rintro ⟨hne, hall, hvalue, hmax⟩
    obtain ⟨sign, hsign, hword⟩ := exists_sign (trimBlankChars text.toList)
    exact ⟨sign, _, hsign, hne, hall, hword ▸ padded_trimBlankChars text.toList, hvalue, hmax⟩
  · rintro ⟨sign, digits, hsign, hne, hall, hpadded, hvalue, hmax⟩
    have htrimmed : Trimmed (sign ++ digits) := by
      refine trimmed_of_forall fun d hd => ?_
      rcases List.mem_append.1 hd with hd | hd
      · rcases hsign with rfl | rfl
        · cases hd
        · rw [List.mem_singleton.1 hd]
          rfl
      · exact isBlank_of_isDigit (hall d hd)
    rw [trimBlankChars_eq_iff.2 ⟨htrimmed, hpadded⟩, withoutSign_append hsign hall]
    exact ⟨hne, hall, hvalue, hmax⟩

theorem NamesNumber.le (h : NamesNumber text n) : n ≤ 0xffffffffffffffff := by
  obtain ⟨sign, digits, -, -, -, -, -, hmax⟩ := h
  exact hmax

theorem NamesNumber.unique {m : Nat} (hn : NamesNumber text n) (hm : NamesNumber text m) : n = m :=
  Option.some.inj ((parseNumber?_eq_some_iff.2 hn).symm.trans (parseNumber?_eq_some_iff.2 hm))

/-- A number is named by its own digits. -/
theorem namesNumber_repr (h : n ≤ 0xffffffffffffffff) : NamesNumber n.repr n := by
  refine ⟨[], Nat.toDigits 10 n, .inl rfl, Nat.toDigits_ne_nil, fun c hc => ?_, ?_,
    Nat.ofDigitChars_ten_toDigits.symm, h⟩
  · exact Nat.isDigit_of_mem_toDigits (by norm_num) (by norm_num) hc
  · rw [Nat.toList_repr, List.nil_append]
    exact padded_self _

/-! ### Policies -/

/-- The name of a policy in small letters. -/
def policyLetters : ErrorPolicy → List Char
  | .degrade => ['d', 'e', 'g', 'r', 'a', 'd', 'e']
  | .propagate => ['p', 'r', 'o', 'p', 'a', 'g', 'a', 't', 'e']

/-- A text names a policy: the letters of its name, each small or capital, between blanks. These are
the characters that become the letters of the name when a text is put into small letters. -/
def NamesPolicy (text : String) (policy : ErrorPolicy) : Prop :=
  ∃ word, List.Forall₂ (fun c letter => c = letter ∨ c = letter.toUpper) word
      (policyLetters policy) ∧ Padded word text.toList

/-- A small letter comes of itself and of its capital. -/
theorem toLower_eq_iff {d letter : Char} (h : letter.isLower = true) :
    d.toLower = letter ↔ d = letter ∨ d = letter.toUpper := by
  constructor
  · rintro rfl
    by_cases hd : d.isUpper = true
    · rw [Char.toUpper_toLower_eq_toUpper,
        Char.toUpper_eq_of_not_isLower (Char.not_isLower_of_isUpper hd)]
      exact .inr rfl
    · exact .inl (Char.toLower_eq_of_not_isUpper hd).symm
  · have hletter := Char.toLower_eq_of_not_isUpper (Char.not_isUpper_of_isLower h)
    rintro (rfl | rfl)
    · exact hletter
    · rw [Char.toLower_toUpper_eq_toLower, hletter]

/-- A word is the name of a policy in letters of either case. -/
theorem map_toLower_eq_iff {word letters : List Char}
    (h : ∀ letter ∈ letters, letter.isLower = true) :
    word.map Char.toLower = letters ↔
      List.Forall₂ (fun c letter => c = letter ∨ c = letter.toUpper) word letters := by
  induction letters generalizing word with
  | nil => rw [List.map_eq_nil_iff, List.forall₂_nil_right_iff]
  | cons letter letters ih =>
    obtain ⟨hletter, hletters⟩ := List.forall_mem_cons.1 h
    cases word with
    | nil => exact iff_of_false nofun nofun
    | cons c word =>
      rw [List.map_cons, List.cons.injEq, List.forall₂_cons, toLower_eq_iff hletter, ih hletters]

theorem isLower_of_mem_policyLetters (policy : ErrorPolicy) :
    ∀ letter ∈ policyLetters policy, letter.isLower = true := by
  have hall : (policyLetters policy).all Char.isLower = true := by cases policy <;> rfl
  exact List.all_eq_true.1 hall

theorem parse?_eq_some_iff_map_toLower : ErrorPolicy.parse? text = some policy ↔
    (trimBlankChars text.toList).map Char.toLower = policyLetters policy := by
  have hother : policyLetters .degrade ≠ policyLetters .propagate := by decide
  have hparse : ErrorPolicy.parse? text =
      if (trimBlankChars text.toList).map Char.toLower = policyLetters .degrade then some .degrade
      else if (trimBlankChars text.toList).map Char.toLower = policyLetters .propagate then
        some .propagate
      else none := rfl
  rw [hparse]
  generalize (trimBlankChars text.toList).map Char.toLower = word
  by_cases hdegrade : word = policyLetters .degrade
  · rw [if_pos hdegrade, hdegrade]
    cases policy with
    | degrade => exact iff_of_true rfl rfl
    | propagate => exact iff_of_false nofun hother
  · rw [if_neg hdegrade]
    by_cases hpropagate : word = policyLetters .propagate
    · rw [if_pos hpropagate, hpropagate]
      cases policy with
      | degrade => exact iff_of_false nofun hother.symm
      | propagate => exact iff_of_true rfl rfl
    · rw [if_neg hpropagate]
      cases policy with
      | degrade => exact iff_of_false nofun hdegrade
      | propagate => exact iff_of_false nofun hpropagate

theorem isBlank_of_isAlpha {d : Char} (h : d.isAlpha = true) : isBlank d = false := by
  simp only [Char.isAlpha, Char.isUpper, Char.isLower, Bool.or_eq_true, Bool.and_eq_true,
    decide_eq_true_eq, ge_iff_le, UInt32.le_iff_toNat_le] at h
  have hletter : 65 ≤ d.toNat ∧ d.toNat ≤ 90 ∨ 97 ≤ d.toNat ∧ d.toNat ≤ 122 := h
  exact isBlank_of_visible (by omega)

/-- **A policy is read** from exactly those texts that name it. -/
theorem parse?_eq_some_iff : ErrorPolicy.parse? text = some policy ↔ NamesPolicy text policy := by
  rw [parse?_eq_some_iff_map_toLower]
  have hlower := isLower_of_mem_policyLetters policy
  constructor
  · intro h
    exact ⟨_, (map_toLower_eq_iff hlower).1 h, padded_trimBlankChars text.toList⟩
  · rintro ⟨word, hword, hpadded⟩
    have hletters := (map_toLower_eq_iff hlower).2 hword
    have htrimmed : Trimmed word := by
      refine trimmed_of_forall fun d hd => isBlank_of_isAlpha ?_
      rw [← Char.isLower_toLower_eq_isAlpha]
      exact hlower _ (hletters ▸ List.mem_map_of_mem hd)
    rw [trimBlankChars_eq_iff.2 ⟨htrimmed, hpadded⟩, hletters]

/-- A policy is named by its own letters. -/
theorem namesPolicy_letters (policy : ErrorPolicy) :
    NamesPolicy (String.ofList (policyLetters policy)) policy := by
  refine ⟨policyLetters policy, List.forall₂_same.2 fun _ _ => .inl rfl, ?_⟩
  rw [String.toList_ofList]
  exact padded_self _

end QueryCache.Config
