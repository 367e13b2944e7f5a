/-!
# Blank characters

The characters with the Unicode property `White_Space`, and trimming by it. Zero-width characters
do not have the property.

## Main definitions

* `isBlank` : the property.
* `trimBlankChars` : a text without blank characters at its ends.
-/

namespace QueryCache

/-- The Unicode property `White_Space`. -/
def isBlank (c : Char) : Bool :=
  let n := c.toNat
  (0x09 ≤ n && n ≤ 0x0d) || n == 0x20 || n == 0x85 || n == 0xa0 || n == 0x1680 ||
    (0x2000 ≤ n && n ≤ 0x200a) || n == 0x2028 || n == 0x2029 || n == 0x202f || n == 0x205f ||
    n == 0x3000

/-- The characters without blank ones at either end. -/
def trimBlankChars (cs : List Char) : List Char :=
  ((cs.dropWhile isBlank).reverse.dropWhile isBlank).reverse

end QueryCache
