/-!
# SHA-256

The hash function of FIPS 180-4 on byte arrays, and digests as hexadecimal text.

## Main definitions

* `Sha256.digest` : the eight words of the digest.
* `Sha256.hexDigest` : the digest as 64 hexadecimal digits in lower case.
-/

namespace QueryCache.Sha256

/-- The round constants: the first 32 bits of the fractional parts of the cube roots of the first
64 primes. -/
def roundConstants : List UInt32 := [
  0x428a2f98, 0x71374491, 0xb5c0fbcf, 0xe9b5dba5, 0x3956c25b, 0x59f111f1, 0x923f82a4, 0xab1c5ed5,
  0xd807aa98, 0x12835b01, 0x243185be, 0x550c7dc3, 0x72be5d74, 0x80deb1fe, 0x9bdc06a7, 0xc19bf174,
  0xe49b69c1, 0xefbe4786, 0x0fc19dc6, 0x240ca1cc, 0x2de92c6f, 0x4a7484aa, 0x5cb0a9dc, 0x76f988da,
  0x983e5152, 0xa831c66d, 0xb00327c8, 0xbf597fc7, 0xc6e00bf3, 0xd5a79147, 0x06ca6351, 0x14292967,
  0x27b70a85, 0x2e1b2138, 0x4d2c6dfc, 0x53380d13, 0x650a7354, 0x766a0abb, 0x81c2c92e, 0x92722c85,
  0xa2bfe8a1, 0xa81a664b, 0xc24b8b70, 0xc76c51a3, 0xd192e819, 0xd6990624, 0xf40e3585, 0x106aa070,
  0x19a4c116, 0x1e376c08, 0x2748774c, 0x34b0bcb5, 0x391c0cb3, 0x4ed8aa4a, 0x5b9cca4f, 0x682e6ff3,
  0x748f82ee, 0x78a5636f, 0x84c87814, 0x8cc70208, 0x90befffa, 0xa4506ceb, 0xbef9a3f7, 0xc67178f2]

/-- The eight working words. -/
structure Words where
  a : UInt32
  b : UInt32
  c : UInt32
  d : UInt32
  e : UInt32
  f : UInt32
  g : UInt32
  h : UInt32

/-- The initial words: the fractional parts of the square roots of the first eight primes. -/
def Words.initial : Words :=
  ⟨0x6a09e667, 0xbb67ae85, 0x3c6ef372, 0xa54ff53a, 0x510e527f, 0x9b05688c, 0x1f83d9ab, 0x5be0cd19⟩

/-- Rotation to the right by less than 32 places. -/
def rotate (x : UInt32) (n : UInt32) : UInt32 := (x >>> n) ||| (x <<< (32 - n))

/-- The length of the message in bits, as eight bytes. -/
def lengthBytes (bits : Nat) : List UInt8 :=
  (List.range 8).map fun i => UInt8.ofNat (bits >>> (8 * (7 - i)))

/-- The message with its delimiter, zeros up to a full block, and its length in bits. -/
def pad (message : List UInt8) : List UInt8 :=
  let size := message.length
  let zeros := (119 - size % 64) % 64
  message ++ 0x80 :: List.replicate zeros 0 ++ lengthBytes (8 * size)

/-- Big-endian words of a list of bytes. -/
def wordsOf : List UInt8 → List UInt32
  | a :: b :: c :: d :: rest =>
    (a.toUInt32 <<< 24 ||| b.toUInt32 <<< 16 ||| c.toUInt32 <<< 8 ||| d.toUInt32) :: wordsOf rest
  | _ => []

/-- The word that follows a schedule of at least sixteen words. -/
def nextWord (schedule : Array UInt32) : UInt32 :=
  let i := schedule.size
  let x := schedule.getD (i - 15) 0
  let y := schedule.getD (i - 2) 0
  let s0 := rotate x 7 ^^^ rotate x 18 ^^^ (x >>> 3)
  let s1 := rotate y 17 ^^^ rotate y 19 ^^^ (y >>> 10)
  schedule.getD (i - 16) 0 + s0 + schedule.getD (i - 7) 0 + s1

/-- The 64 words of the schedule of a block. -/
def schedule (block : List UInt32) : Array UInt32 :=
  (List.range 48).foldl (fun words _ => words.push (nextWord words)) block.toArray

/-- One round with its constant and its word of the schedule. -/
def round (s : Words) (input : UInt32 × UInt32) : Words :=
  let sum1 := rotate s.e 6 ^^^ rotate s.e 11 ^^^ rotate s.e 25
  let choice := (s.e &&& s.f) ^^^ (~~~s.e &&& s.g)
  let t1 := s.h + sum1 + choice + input.1 + input.2
  let sum0 := rotate s.a 2 ^^^ rotate s.a 13 ^^^ rotate s.a 22
  let majority := (s.a &&& s.b) ^^^ (s.a &&& s.c) ^^^ (s.b &&& s.c)
  ⟨t1 + (sum0 + majority), s.a, s.b, s.c, s.d + t1, s.e, s.f, s.g⟩

/-- Works one block of sixteen words into the state. -/
def compress (s : Words) (block : List UInt32) : Words :=
  let r := (roundConstants.zip (schedule block).toList).foldl round s
  ⟨s.a + r.a, s.b + r.b, s.c + r.c, s.d + r.d, s.e + r.e, s.f + r.f, s.g + r.g, s.h + r.h⟩

/-- Works in block after block; the first argument bounds their number. -/
def absorb : Nat → Words → List UInt32 → Words
  | 0, s, _ => s
  | n + 1, s, words => absorb n (compress s (words.take 16)) (words.drop 16)

/-- The words of the digest. -/
def digest (message : ByteArray) : List UInt32 :=
  let words := wordsOf (pad message.data.toList)
  let s := absorb (words.length / 16) .initial words
  [s.a, s.b, s.c, s.d, s.e, s.f, s.g, s.h]

/-- A word as eight hexadecimal digits. -/
def hexWord (w : UInt32) : List Char :=
  (List.range 8).map fun i => "0123456789abcdef".toList.getD (w.toNat >>> (4 * (7 - i)) % 16) '0'

/-- The digest as hexadecimal text. -/
def hexDigest (message : ByteArray) : String :=
  String.ofList ((digest message).flatMap hexWord)

end QueryCache.Sha256
