import QueryCache.RecordId

/-!
# Time-ordered UUIDs

Identifiers are 128-bit numbers that grow with the clock. A source remembers the last one it gave
out: where the clock's candidate is not above it, because the clock stands still or runs backwards,
the successor of the last one is taken instead. So identifiers always grow.

## Main definitions

* `Uuid.text` : the hyphenated form, whose order as a text is the order of the numbers.
* `Uuid.next`, `Uuid.run` : the source of identifiers.
-/

namespace QueryCache

/-- A universally unique identifier. -/
abbrev Uuid := BitVec 128

namespace Uuid

/-- The hexadecimal digit of the `i`-th group of four bits, counted from the front. -/
def digit (u : Uuid) (i : Nat) : Char :=
  "0123456789abcdef".toList.getD (u.toNat >>> (4 * (31 - i)) % 16) '0'

/-- The digits from `first` on, so many of them. -/
def digits (u : Uuid) (first count : Nat) : List Char :=
  (List.range' first count).map u.digit

/-- The hyphenated form in groups of 8, 4, 4, 4 and 12 digits. -/
def text (u : Uuid) : String :=
  String.ofList (u.digits 0 8 ++ '-' :: u.digits 8 4 ++ '-' :: u.digits 12 4 ++
    '-' :: u.digits 16 4 ++ '-' :: u.digits 20 12)

/-- The identifier of a record that this is. -/
def toRecordId (u : Uuid) : RecordId := ⟨u.text⟩

/-- The version digit. -/
def version (u : Uuid) : Nat := u.toNat >>> 76 % 16

/-- The two bits of the variant. -/
def variant (u : Uuid) : Nat := u.toNat >>> 62 % 4

/-- Made by the clock, in the layout of version 7. -/
def IsTimeOrdered (u : Uuid) : Prop := u.version = 7 ∧ u.variant = 2

instance (u : Uuid) : Decidable u.IsTimeOrdered := inferInstanceAs (Decidable (_ ∧ _))

/-- The identifier after `last` when the clock offers `candidate`. -/
def next (last candidate : Uuid) : Uuid := if candidate ≤ last then last + 1 else candidate

/-- The identifiers after `last` for the clock's candidates in turn. -/
def run (last : Uuid) : List Uuid → List Uuid
  | [] => []
  | candidate :: rest => next last candidate :: run (next last candidate) rest

/-- The identifiers of a new source for the clock's candidates in turn. -/
def generate (candidates : List Uuid) : List Uuid := run 0 candidates

end Uuid

end QueryCache
