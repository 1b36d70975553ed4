import Mathlib.Data.Nat.NthRoot.Defs
import Mathlib.Algebra.Ring.Nat
import Mathlib.Data.List.Basic

/-!
# SHA-256 and HMAC

The hash of FIPS 180-4 for messages of whole bytes, and the keyed hash of RFC 2104 over
any hash. The constants are computed from their definition: the first thirty-two bits of
the fractional parts of cube roots and square roots of the first primes.
-/
namespace SimplyIpExporter.SecureHash

abbrev Word := BitVec 32

/-- Eight values of a kind: a hash value, or the working variables of a round. -/
structure Eight (A : Type) where
  a : A
  b : A
  c : A
  d : A
  e : A
  f : A
  g : A
  h : A
  deriving DecidableEq, Repr

section Eights
variable {A B C : Type}

def Eight.map (f : A → B) (x : Eight A) : Eight B :=
  ⟨f x.a, f x.b, f x.c, f x.d, f x.e, f x.f, f x.g, f x.h⟩

def Eight.zipWith (f : A → B → C) (x : Eight A) (y : Eight B) : Eight C :=
  ⟨f x.a y.a, f x.b y.b, f x.c y.c, f x.d y.d, f x.e y.e, f x.f y.f, f x.g y.g, f x.h y.h⟩

def Eight.toList (x : Eight A) : List A := [x.a, x.b, x.c, x.d, x.e, x.f, x.g, x.h]

/-- All eight pairs are related. -/
structure Eight.Rel (R : A → B → Prop) (x : Eight A) (y : Eight B) : Prop where
  a : R x.a y.a
  b : R x.b y.b
  c : R x.c y.c
  d : R x.d y.d
  e : R x.e y.e
  f : R x.f y.f
  g : R x.g y.g
  h : R x.h y.h

end Eights

def rotr (n : ℕ) (x : Word) : Word := (x >>> n) ||| (x <<< (32 - n))

def shr (n : ℕ) (x : Word) : Word := x >>> n

def ch (x y z : Word) : Word := (x &&& y) ^^^ (~~~x &&& z)

def maj (x y z : Word) : Word := (x &&& y) ^^^ (x &&& z) ^^^ (y &&& z)

/-- The functions of the rounds. -/
def bigSigma0 (x : Word) : Word := rotr 2 x ^^^ rotr 13 x ^^^ rotr 22 x

def bigSigma1 (x : Word) : Word := rotr 6 x ^^^ rotr 11 x ^^^ rotr 25 x

/-- The functions of the message schedule. -/
def smallSigma0 (x : Word) : Word := rotr 7 x ^^^ rotr 18 x ^^^ shr 3 x

def smallSigma1 (x : Word) : Word := rotr 17 x ^^^ rotr 19 x ^^^ shr 10 x

/-- The first sixty-four primes. -/
def primes : List ℕ :=
  [2, 3, 5, 7, 11, 13, 17, 19, 23, 29, 31, 37, 41, 43, 47, 53, 59, 61, 67, 71, 73, 79, 83, 89,
    97, 101,
    103, 107, 109, 113, 127, 131, 137, 139, 149, 151, 157, 163, 167, 173, 179, 181, 191, 193,
    197, 199,
    211, 223, 227, 229, 233, 239, 241, 251, 257, 263, 269, 271, 277, 281, 283, 293, 307, 311]

/-- The first thirty-two bits of the fractional part of a root. -/
def rootBits (degree n : ℕ) : Word := BitVec.ofNat 32 (Nat.nthRoot degree (n * 2 ^ (32 * degree)))

def roundConstants : List Word := primes.map (rootBits 3)

def initialHash : Eight Word :=
  Eight.map (rootBits 2) ⟨2, 3, 5, 7, 11, 13, 17, 19⟩

/-- The least number of zero bits after the one bit that leaves room for the length. -/
def zeroBits (bitLength : ℕ) : ℕ := (447 + 512 - bitLength % 512) % 512

/-- The length in bits, as a number of sixty-four bits. -/
def lengthBytes (bitLength : ℕ) : List UInt8 :=
  [7, 6, 5, 4, 3, 2, 1, 0].map fun i => UInt8.ofNat (bitLength / 2 ^ (8 * i))

/-- A one bit and the zero bits make up whole bytes. -/
def pad (message : List UInt8) : List UInt8 :=
  message ++ 0x80 :: List.replicate (zeroBits (8 * message.length) / 8) 0 ++
    lengthBytes (8 * message.length)

def word (b₀ b₁ b₂ b₃ : UInt8) : Word :=
  b₀.toBitVec ++ b₁.toBitVec ++ b₂.toBitVec ++ b₃.toBitVec

def wordBytes (w : Word) : List UInt8 :=
  [24, 16, 8, 0].map fun i => UInt8.ofBitVec (w.extractLsb' i 8)

/-- The word at an offset into the padded message. -/
def wordAt (padded : List UInt8) (offset : ℕ) : Word :=
  word (padded.getD offset 0) (padded.getD (offset + 1) 0) (padded.getD (offset + 2) 0)
    (padded.getD (offset + 3) 0)

def block (padded : List UInt8) (i : ℕ) : List Word :=
  (List.range 16).map fun j => wordAt padded (64 * i + 4 * j)

def extend (w : List Word) (t : ℕ) : List Word :=
  w ++ [smallSigma1 (w.getD (t - 2) 0) + w.getD (t - 7) 0 + smallSigma0 (w.getD (t - 15) 0) +
    w.getD (t - 16) 0]

def schedule (block : List Word) : List Word := (List.range' 16 48).foldl extend block

def round (w : List Word) (v : Eight Word) (t : ℕ) : Eight Word :=
  let t₁ := v.h + bigSigma1 v.e + ch v.e v.f v.g + roundConstants.getD t 0 + w.getD t 0
  let t₂ := bigSigma0 v.a + maj v.a v.b v.c
  ⟨t₁ + t₂, v.a, v.b, v.c, v.d + t₁, v.e, v.f, v.g⟩

def compress (hash : Eight Word) (block : List Word) : Eight Word :=
  hash.zipWith (· + ·) ((List.range 64).foldl (round (schedule block)) hash)

def sha256 (message : List UInt8) : List UInt8 :=
  let padded := pad message
  ((List.range (padded.length / 64)).foldl (fun hash i => compress hash (block padded i))
    initialHash).toList.flatMap wordBytes

/-- A key of at most one block, or the hash of a longer one. -/
def blockKey (hash : List UInt8 → List UInt8) (blockSize : ℕ) (key : List UInt8) : List UInt8 :=
  let short := if blockSize < key.length then hash key else key
  short ++ List.replicate (blockSize - short.length) 0

def hmac (hash : List UInt8 → List UInt8) (blockSize : ℕ) (key text : List UInt8) : List UInt8 :=
  let key := blockKey hash blockSize key
  hash (key.map (· ^^^ 0x5c) ++ hash (key.map (· ^^^ 0x36) ++ text))

def hmacSha256 (key text : List UInt8) : List UInt8 := hmac sha256 64 key text

theorem length_pad (message : List UInt8) :
    (pad message).length = message.length + 1 + zeroBits (8 * message.length) / 8 + 8 := by
  simp [pad, lengthBytes]
  omega

/-- Whole blocks. -/
theorem length_pad_mod (message : List UInt8) : (pad message).length % 64 = 0 := by
  rw [length_pad]
  unfold zeroBits
  omega

theorem length_sha256 (message : List UInt8) : (sha256 message).length = 32 := by
  simp [sha256, Eight.toList, wordBytes]

-- The digest of "abc".
example :
    sha256 [0x61, 0x62, 0x63] =
      [0xba, 0x78, 0x16, 0xbf, 0x8f, 0x01, 0xcf, 0xea, 0x41, 0x41, 0x40, 0xde, 0x5d, 0xae,
        0x22, 0x23,
        0xb0, 0x03, 0x61, 0xa3, 0x96, 0x17, 0x7a, 0x9c, 0xb4, 0x10, 0xff, 0x61, 0xf2, 0x00, 0x15,
        0xad] := by
  decide +kernel

/-- One whole block, where the hash is not longer than that. -/
theorem length_blockKey {hash : List UInt8 → List UInt8} {blockSize : ℕ} {key : List UInt8}
    (hhash : (hash key).length ≤ blockSize) : (blockKey hash blockSize key).length = blockSize := by
  unfold blockKey
  dsimp only
  rw [List.length_append, List.length_replicate]
  split <;> omega

end SimplyIpExporter.SecureHash
