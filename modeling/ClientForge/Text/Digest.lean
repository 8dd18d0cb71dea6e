import ClientForge.Text.Shown

/-!
# Content digests

The SHA-256 digest of a text's UTF-8 bytes, in lower-case hexadecimal. Lock files record it, so that a
reader can tell which description the files beside it were generated from.
-/

namespace ClientForge.Text.Digest

/-- The eight working words. -/
structure State where
  a : UInt32
  b : UInt32
  c : UInt32
  d : UInt32
  e : UInt32
  f : UInt32
  g : UInt32
  h : UInt32

def initial : State :=
  ⟨0x6a09e667, 0xbb67ae85, 0x3c6ef372, 0xa54ff53a, 0x510e527f, 0x9b05688c, 0x1f83d9ab, 0x5be0cd19⟩

def roundConstants : List UInt32 := [
  0x428a2f98, 0x71374491, 0xb5c0fbcf, 0xe9b5dba5, 0x3956c25b, 0x59f111f1, 0x923f82a4, 0xab1c5ed5,
  0xd807aa98, 0x12835b01, 0x243185be, 0x550c7dc3, 0x72be5d74, 0x80deb1fe, 0x9bdc06a7, 0xc19bf174,
  0xe49b69c1, 0xefbe4786, 0x0fc19dc6, 0x240ca1cc, 0x2de92c6f, 0x4a7484aa, 0x5cb0a9dc, 0x76f988da,
  0x983e5152, 0xa831c66d, 0xb00327c8, 0xbf597fc7, 0xc6e00bf3, 0xd5a79147, 0x06ca6351, 0x14292967,
  0x27b70a85, 0x2e1b2138, 0x4d2c6dfc, 0x53380d13, 0x650a7354, 0x766a0abb, 0x81c2c92e, 0x92722c85,
  0xa2bfe8a1, 0xa81a664b, 0xc24b8b70, 0xc76c51a3, 0xd192e819, 0xd6990624, 0xf40e3585, 0x106aa070,
  0x19a4c116, 0x1e376c08, 0x2748774c, 0x34b0bcb5, 0x391c0cb3, 0x4ed8aa4a, 0x5b9cca4f, 0x682e6ff3,
  0x748f82ee, 0x78a5636f, 0x84c87814, 0x8cc70208, 0x90befffa, 0xa4506ceb, 0xbef9a3f7, 0xc67178f2]

def rotate (x n : UInt32) : UInt32 := (x >>> n) ||| (x <<< (32 - n))

/-- The word that follows a window of sixteen words of the schedule. -/
def scheduled (window : List UInt32) : UInt32 :=
  let early := window.getD 1 0
  let late := window.getD 14 0
  (rotate late 17 ^^^ rotate late 19 ^^^ (late >>> 10)) + window.getD 9 0 +
    (rotate early 7 ^^^ rotate early 18 ^^^ (early >>> 3)) + window.getD 0 0

/-- One round: mixes the first word of the window into the state and moves the window on. -/
def round (s : State × List UInt32) (constant : UInt32) : State × List UInt32 :=
  let ⟨a, b, c, d, e, f, g, h⟩ := s.1
  let word := s.2.headD 0
  let t₁ := h + (rotate e 6 ^^^ rotate e 11 ^^^ rotate e 25) + ((e &&& f) ^^^ ((~~~ e) &&& g)) +
    constant + word
  let t₂ := (rotate a 2 ^^^ rotate a 13 ^^^ rotate a 22) + ((a &&& b) ^^^ (a &&& c) ^^^ (b &&& c))
  (⟨t₁ + t₂, a, b, c, d + t₁, e, f, g⟩, s.2.tail ++ [scheduled s.2])

/-- Folds a block of sixteen words into the state. -/
def absorb (s : State) (block : List UInt32) : State :=
  let m := (roundConstants.foldl round (s, block)).1
  ⟨s.a + m.a, s.b + m.b, s.c + m.c, s.d + m.d, s.e + m.e, s.f + m.f, s.g + m.g, s.h + m.h⟩

/-- The big-endian bytes of a number, padded to a width. -/
def bigEndian (width n : Nat) : List UInt8 :=
  (List.range width).reverse.map fun i => (n >>> (8 * i)).toUInt8

/-- The message followed by a set bit, zeros up to a block boundary less eight bytes, and its bit length. -/
def padded (bytes : List UInt8) : List UInt8 :=
  let size := bytes.length
  bytes ++ 0x80 :: List.replicate ((119 - size % 64) % 64) 0 ++ bigEndian 8 (8 * size)

/-- The big-endian words of a byte sequence. -/
def words : List UInt8 → List UInt32
  | a :: b :: c :: d :: rest =>
    ((a.toUInt32 <<< 24) ||| (b.toUInt32 <<< 16) ||| (c.toUInt32 <<< 8) ||| d.toUInt32) :: words rest
  | _ => []

/-- Absorbs the words sixteen at a time; `count` is the number of blocks. -/
def absorbBlocks : Nat → State → List UInt32 → State
  | 0, s, _ => s
  | count + 1, s, ws => absorbBlocks count (absorb s (ws.take 16)) (ws.drop 16)

/-- The SHA-256 digest of a text in lower-case hexadecimal. -/
def sha256 (text : String) : String :=
  let ws := words (padded text.toUTF8.toList)
  let s := absorbBlocks (ws.length / 16) initial ws
  String.ofList ([s.a, s.b, s.c, s.d, s.e, s.f, s.g, s.h].flatMap fun w => hexDigits 8 w.toNat)

end ClientForge.Text.Digest
