/-!
# Decoding UTF-8

Bytes are decoded as a whole. If they are no text, the report names the first place where they stop
being one: a sequence broken by a byte that cannot follow, with the length of the part that was
still good, or a sequence that the end of the input cuts off.

## Main definitions

* `Utf8.Fault` : why bytes are no text.
* `Utf8.decode` : the text of bytes.
-/

namespace QueryCache.Utf8

/-- Why bytes are no text. -/
inductive Fault where
  /-- `length` bytes from `index` on begin a sequence that the next byte does not continue. -/
  | invalid (length index : Nat)
  /-- The input ends within the sequence that begins at `index`. -/
  | incomplete (index : Nat)
deriving DecidableEq

/-- The report on a fault. -/
def Fault.message : Fault → String
  | .invalid length index =>
    "invalid utf-8 sequence of " ++ toString length ++ " bytes from index " ++ toString index
  | .incomplete index => "incomplete utf-8 byte sequence from index " ++ toString index

/-- What a sequence still owes: so many continuation bytes, the next one between the bounds. -/
structure Debt where
  count : Nat
  low : UInt8
  high : UInt8

/-- What a first byte leaves owing; `none` if no sequence begins with it. The narrower bounds rule
out overlong forms, surrogates and code points above the last one. -/
def Debt.ofFirst (b : UInt8) : Option Debt :=
  if b < 0x80 then some ⟨0, 0x80, 0xbf⟩
  else if b < 0xc2 then none
  else if b < 0xe0 then some ⟨1, 0x80, 0xbf⟩
  else if b = 0xe0 then some ⟨2, 0xa0, 0xbf⟩
  else if b = 0xed then some ⟨2, 0x80, 0x9f⟩
  else if b < 0xf0 then some ⟨2, 0x80, 0xbf⟩
  else if b = 0xf0 then some ⟨3, 0x90, 0xbf⟩
  else if b < 0xf4 then some ⟨3, 0x80, 0xbf⟩
  else if b = 0xf4 then some ⟨3, 0x80, 0x8f⟩
  else none

/-- The first fault of the bytes that follow. The sequence under way began at `start`, has `taken`
bytes so far and owes `debt`; with `taken = 0` the next byte begins one. -/
def scan (start taken : Nat) (debt : Debt) : List UInt8 → Option Fault
  | [] => if taken = 0 then none else some (.incomplete start)
  | b :: rest =>
    if taken = 0 then
      match Debt.ofFirst b with
      | none => some (.invalid 1 start)
      | some debt => if debt.count = 0 then scan (start + 1) 0 debt rest else scan start 1 debt rest
    else if debt.low ≤ b ∧ b ≤ debt.high then
      if debt.count ≤ 1 then scan (start + taken + 1) 0 debt rest
      else scan start (taken + 1) ⟨debt.count - 1, 0x80, 0xbf⟩ rest
    else some (.invalid taken start)

/-- The first fault of the bytes. -/
def fault? (bytes : ByteArray) : Option Fault := scan 0 0 ⟨0, 0x80, 0xbf⟩ bytes.data.toList

/-- The text of bytes, or what is wrong with them. -/
def decode (bytes : ByteArray) : Except Fault String :=
  match String.fromUTF8? bytes with
  | some text => .ok text
  | none => .error ((fault? bytes).getD (.incomplete bytes.size))

/-- Every text is the decoding of its bytes. -/
@[simp] theorem decode_toUTF8 (text : String) : decode text.toUTF8 = .ok text := by
  have h : text.toUTF8.IsValidUTF8 := text.isValidUTF8
  simp only [decode, String.fromUTF8?, h, dite_true]
  rfl

end QueryCache.Utf8
