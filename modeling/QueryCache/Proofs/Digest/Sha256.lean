import Mathlib
import QueryCache.Digest.Sha256

/-!
# Digests as text

The text of a digest has eight hexadecimal digits for each of its eight words, and the digits of a
word give the word back. So digests that differ have different texts.

## Main definitions

* `Sha256.isHexDigit` : the digits of digests.

## Main results

* `Sha256.hexWord_injective` : the digits of a word.
* `Sha256.hexDigest_shape` : the form of the text of a digest.
* `Sha256.hexDigest_inj` : texts of digests are told apart.
-/

namespace QueryCache.Sha256

/-- The digits and the letters from a to f. -/
def isHexDigit (c : Char) : Bool := "0123456789abcdef".toList.contains c

/-! ### Digits -/

/-- The digit of a number below sixteen. -/
def hexChar (n : Nat) : Char := "0123456789abcdef".toList.getD n '0'

theorem isHexDigit_hexChar {n : Nat} (h : n < 16) : isHexDigit (hexChar n) := by
  have all : ∀ n : Fin 16, isHexDigit (hexChar n) := by decide +kernel
  exact all ⟨n, h⟩

theorem hexChar_lt {m n : Nat} (h : m < n) (hn : n < 16) : hexChar m < hexChar n := by
  have all : ∀ m n : Fin 16, m < n → hexChar m < hexChar n := by decide +kernel
  exact all ⟨m, h.trans hn⟩ ⟨n, hn⟩ h

theorem hexChar_inj {m n : Nat} (hm : m < 16) (hn : n < 16) (h : hexChar m = hexChar n) :
    m = n := by
  rcases Nat.lt_trichotomy m n with hlt | heq | hlt
  · exact absurd h (hexChar_lt hlt hn).ne
  · exact heq
  · exact absurd h.symm (hexChar_lt hlt hm).ne

/-- Of two numbers the smaller one has the smaller digit at the first place where they differ. -/
theorem exists_digit_lt {m n k : ℕ} (hlt : m < n) (hn : n < 16 ^ k) :
    ∃ i < k, m / 16 ^ (i + 1) = n / 16 ^ (i + 1) ∧ m / 16 ^ i % 16 < n / 16 ^ i % 16 := by
  induction k generalizing m n with
  | zero => omega
  | succ k ih =>
    rcases Nat.lt_or_ge (m / 16) (n / 16) with hfront | hfront
    · obtain ⟨i, hi, heq, hdigit⟩ := ih hfront (by rw [Nat.pow_succ] at hn; omega)
      refine ⟨i + 1, by omega, ?_, ?_⟩
      · rwa [Nat.pow_succ', ← Nat.div_div_eq_div_mul, ← Nat.div_div_eq_div_mul]
      · rwa [Nat.pow_succ', ← Nat.div_div_eq_div_mul, ← Nat.div_div_eq_div_mul]
    · refine ⟨0, by omega, ?_, ?_⟩
      · rw [Nat.zero_add, Nat.pow_one]
        omega
      · rw [Nat.pow_zero, Nat.div_one, Nat.div_one]
        omega

/-! ### Words -/

/-- The digits of a word, from the highest to the lowest. -/
theorem hexWord_eq (w : UInt32) :
    hexWord w = (List.range 8).map fun i => hexChar (w.toNat / 16 ^ (7 - i) % 16) := by
  refine List.map_congr_left fun i _ => ?_
  rw [hexChar, Nat.shiftRight_eq_div_pow, Nat.pow_mul]

theorem length_hexWord (w : UInt32) : (hexWord w).length = 8 := by
  rw [hexWord_eq, List.length_map, List.length_range]

theorem isHexDigit_of_mem_hexWord {w : UInt32} {c : Char} (h : c ∈ hexWord w) : isHexDigit c := by
  rw [hexWord_eq] at h
  obtain ⟨i, -, rfl⟩ := List.mem_map.1 h
  exact isHexDigit_hexChar (Nat.mod_lt _ (by decide))

/-- **The digits of a word** give the word back. -/
theorem hexWord_injective : Function.Injective hexWord := by
  intro w w' h
  rw [hexWord_eq, hexWord_eq] at h
  have digit (i : Nat) (hi : i < 8) : w.toNat / 16 ^ i % 16 = w'.toNat / 16 ^ i % 16 := by
    have hplace := List.map_inj_left.1 h (7 - i) (List.mem_range.2 (by omega))
    rw [show 7 - (7 - i) = i by omega] at hplace
    exact hexChar_inj (Nat.mod_lt _ (by decide)) (Nat.mod_lt _ (by decide)) hplace
  have bound (x : UInt32) : x.toNat < 16 ^ 8 := Nat.lt_of_lt_of_eq x.toNat_lt (by decide)
  by_contra hne
  rcases Nat.lt_or_gt_of_ne (mt UInt32.toNat_inj.1 hne) with hlt | hlt
  · obtain ⟨i, hi, -, hdigit⟩ := exists_digit_lt hlt (bound w')
    exact hdigit.ne (digit i hi)
  · obtain ⟨i, hi, -, hdigit⟩ := exists_digit_lt hlt (bound w)
    exact hdigit.ne (digit i hi).symm

theorem flatMap_hexWord_inj {ws ws' : List UInt32} (hlength : ws.length = ws'.length)
    (h : ws.flatMap hexWord = ws'.flatMap hexWord) : ws = ws' := by
  induction ws generalizing ws' with
  | nil => exact (List.length_eq_zero_iff.1 hlength.symm).symm
  | cons w rest ih =>
    cases ws' with
    | nil => cases hlength
    | cons w' rest' =>
      rw [List.flatMap_cons, List.flatMap_cons] at h
      obtain ⟨hword, hrest⟩ := List.append_inj h (by rw [length_hexWord, length_hexWord])
      rw [hexWord_injective hword, ih (Nat.succ.inj hlength) hrest]

/-! ### Digests -/

theorem length_digest (message : ByteArray) : (digest message).length = 8 := rfl

/-- **The text of a digest** consists of 64 hexadecimal digits. -/
theorem hexDigest_shape (message : ByteArray) : ∃ digits : List Char,
    hexDigest message = String.ofList digits ∧ digits.length = 64 ∧ ∀ c ∈ digits, isHexDigit c := by
  refine ⟨_, rfl, ?_, fun c hc => ?_⟩
  · simp [List.length_flatMap, length_hexWord, length_digest]
  · obtain ⟨w, -, hw⟩ := List.mem_flatMap.1 hc
    exact isHexDigit_of_mem_hexWord hw

/-- **Texts of digests** are the same only if the digests are. -/
theorem hexDigest_inj {message message' : ByteArray} (h : hexDigest message = hexDigest message') :
    digest message = digest message' :=
  flatMap_hexWord_inj rfl (String.ofList_injective h)

end QueryCache.Sha256
