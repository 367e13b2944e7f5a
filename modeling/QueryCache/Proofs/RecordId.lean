import Mathlib.Data.String.Basic
import QueryCache.RecordId

/-!
# The order of record identifiers

Identifiers are compared by the bytes of their texts, from the front. A character below another one
is told from it by the first byte in which their encodings differ, and no encoding continues
another. So the order of the bytes is the order of the texts by code points.

## Main definitions

* `RecordId.instLT` : identifiers are compared by their bytes.

## Main results

* `utf8EncodeChar_append_lt` : the encodings of two characters, whatever comes after them.
* `RecordId.lt_iff_text_lt` : the order of identifiers is the order of their texts.
-/

namespace QueryCache

/-! ### Characters -/

theorem codePoint_lt (c : Char) : c.val.toNat < 0x110000 := by
  rcases c.valid with h | ⟨-, h⟩
  · exact h.trans (by decide)
  · exact h

/-- **A character below another one** has the smaller encoding, whatever comes after the two. -/
theorem utf8EncodeChar_append_lt {c d : Char} (h : c < d) (rest rest' : List UInt8) :
    String.utf8EncodeChar c ++ rest < String.utf8EncodeChar d ++ rest' := by
  have hmax := codePoint_lt d
  have hlt : c.val.toNat < d.val.toNat := h
  simp only [String.utf8EncodeChar]
  generalize c.val.toNat = m at *
  generalize d.val.toNat = n at *
  have byte (x : ℕ) (hx : x < 256) : (UInt8.ofNat x).toNat = x := Nat.mod_eq_of_lt hx
  have top (x : ℕ) (hx : x < 0x110000) : x / 262144 % 8 = x / 262144 := by omega
  -- Encodings of one length hold digits to base 64, and the first ones that differ decide.
  have h₁ : m / 64 < n / 64 ∨ m / 64 = n / 64 ∧ m % 64 < n % 64 := by omega
  have h₂ : m / 4096 < n / 4096 ∨
      m / 4096 = n / 4096 ∧ m / 64 % 64 < n / 64 % 64 ∨ m / 64 = n / 64 := by omega
  have h₃ : m / 262144 < n / 262144 ∨
      m / 262144 = n / 262144 ∧ m / 4096 % 64 < n / 4096 % 64 ∨ m / 4096 = n / 4096 := by omega
  split_ifs <;>
  · simp (disch := omega) only [List.cons_append, List.nil_append, List.cons_lt_cons_iff,
      UInt8.lt_iff_toNat_lt, ← UInt8.toNat_inj, byte, top]
    omega

/-! ### Texts -/

theorem flatMap_utf8EncodeChar_lt {l l' : List Char} (h : List.Lex (· < ·) l l') :
    l.flatMap String.utf8EncodeChar < l'.flatMap String.utf8EncodeChar := by
  induction h with
  | @nil c _ =>
    obtain ⟨first, others, hbytes⟩ :=
      List.exists_cons_of_ne_nil (String.utf8EncodeChar_ne_nil (c := c))
    rw [List.flatMap_cons, hbytes]
    exact List.nil_lt_cons first _
  | rel hlt => exact utf8EncodeChar_append_lt hlt _ _
  | cons _ ih => exact List.append_left_lt ih

theorem toList_toUTF8 (text : String) :
    text.toUTF8.data.toList = text.toList.flatMap String.utf8EncodeChar := by
  rw [String.toUTF8_eq_toByteArray, ← String.utf8Encode_toList, List.utf8Encode,
    List.toList_data_toByteArray]

theorem toUTF8_lt_of_lt {text text' : String} (h : text < text') :
    text.toUTF8.data.toList < text'.toUTF8.data.toList := by
  rw [toList_toUTF8, toList_toUTF8]
  exact flatMap_utf8EncodeChar_lt (String.lt_iff_toList_lt.1 h)

/-! ### Identifiers -/

namespace RecordId

variable {id id' : RecordId}

/-- Identifiers are compared by the bytes of their texts. -/
instance instLT : LT RecordId := ⟨fun id id' => id.toBytes.data.toList < id'.toBytes.data.toList⟩

/-- **The order of identifiers** is the order of their texts by code points. -/
theorem lt_iff_text_lt : id < id' ↔ id.text < id'.text := by
  constructor
  · intro h
    rcases lt_trichotomy id.text id'.text with hlt | heq | hgt
    · exact hlt
    · obtain rfl : id = id' := by rw [RecordId.mk.injEq, heq]
      exact absurd h (List.lt_irrefl _)
    · exact absurd h (List.lt_asymm (toUTF8_lt_of_lt hgt))
  · exact toUTF8_lt_of_lt

end RecordId

end QueryCache
