import Mathlib.Data.List.GetD
import SimplyIpExporter.CanonicalSigning
import SimplyIpExporter.JsNumbers
import SimplyIpExporter.SecureHash

/-!
# The signer of the dashboard

Outside a secure context the browser has no keyed hash of its own, and the page computes
one with numbers. The program below is that computation, number by number: bitwise
operators over signed words, sums taken back to thirty-two bits, the length written by
dividing by powers of two. Every number of it carries the word that the definition of the
hash has in its place, so both end in the same bytes and the header is the one a server
computes.

Strings are sequences of characters. A lone surrogate, which a browser could hold, has no
counterpart in a request.
-/
namespace SimplyIpExporter.PureCrypto
open Entities CanonicalSigning JsNumbers
open SecureHash (Eight Word)

def K : List ℚ :=
  [0x428a2f98, 0x71374491, 0xb5c0fbcf, 0xe9b5dba5, 0x3956c25b, 0x59f111f1, 0x923f82a4, 0xab1c5ed5,
    0xd807aa98, 0x12835b01, 0x243185be, 0x550c7dc3, 0x72be5d74, 0x80deb1fe, 0x9bdc06a7, 0xc19bf174,
    0xe49b69c1, 0xefbe4786, 0x0fc19dc6, 0x240ca1cc, 0x2de92c6f, 0x4a7484aa, 0x5cb0a9dc, 0x76f988da,
    0x983e5152, 0xa831c66d, 0xb00327c8, 0xbf597fc7, 0xc6e00bf3, 0xd5a79147, 0x06ca6351, 0x14292967,
    0x27b70a85, 0x2e1b2138, 0x4d2c6dfc, 0x53380d13, 0x650a7354, 0x766a0abb, 0x81c2c92e, 0x92722c85,
    0xa2bfe8a1, 0xa81a664b, 0xc24b8b70, 0xc76c51a3, 0xd192e819, 0xd6990624, 0xf40e3585, 0x106aa070,
    0x19a4c116, 0x1e376c08, 0x2748774c, 0x34b0bcb5, 0x391c0cb3, 0x4ed8aa4a, 0x5b9cca4f, 0x682e6ff3,
    0x748f82ee, 0x78a5636f, 0x84c87814, 0x8cc70208, 0x90befffa, 0xa4506ceb, 0xbef9a3f7, 0xc67178f2]

/-- The value `h` starts with. -/
def initial : Eight ℚ :=
  ⟨0x6a09e667, 0xbb67ae85, 0x3c6ef372, 0xa54ff53a, 0x510e527f, 0x9b05688c, 0x1f83d9ab, 0x5be0cd19⟩

def rotr (x : ℚ) (n : ℕ) : ℚ := bitOr (unsignedShiftRight x n) (shiftLeft x (32 - n))

/-- `while (padded.length % 64 !== 56) padded.push(0)`. -/
def pushZeros (padded : List ℚ) : List ℚ :=
  if padded.length % 64 ≠ 56 then pushZeros (padded ++ [0]) else padded
termination_by (120 - padded.length % 64) % 64
decreasing_by
  rw [List.length_append, List.length_singleton]
  omega

/-- `(padded[at] << 24) | (padded[at + 1] << 16) | (padded[at + 2] << 8) | padded[at + 3]`. -/
def messageWord (padded : List ℚ) (offset : ℕ) : ℚ :=
  bitOr
    (bitOr
      (bitOr (shiftLeft (padded.getD offset 0) 24) (shiftLeft (padded.getD (offset + 1) 0) 16))
      (shiftLeft (padded.getD (offset + 2) 0) 8))
    (padded.getD (offset + 3) 0)

/-- The first loop over `w`, whose places are all written before they are read. -/
def readWords (padded : List ℚ) (chunk : ℕ) (w : ℕ → ℚ) : ℕ → ℚ :=
  (List.range 16).foldl (fun w i => Function.update w i (messageWord padded (chunk + i * 4))) w

section Arithmetic
variable (r : Rounding)

def pad (bytes : List ℚ) : List ℚ :=
  let bitLen := r.mul bytes.length 8
  pushZeros (bytes ++ [0x80]) ++
    [7, 6, 5, 4, 3, 2, 1, 0].map fun i => bitAnd (r.div bitLen (r.pow 2 (i * 8))) 0xff

/-- One turn of the second loop over `w`. -/
def extend (w : ℕ → ℚ) (i : ℕ) : ℕ → ℚ :=
  let s0 := bitXor (bitXor (rotr (w (i - 15)) 7) (rotr (w (i - 15)) 18))
      (unsignedShiftRight (w (i - 15)) 3)
  let s1 := bitXor (bitXor (rotr (w (i - 2)) 17) (rotr (w (i - 2)) 19))
      (unsignedShiftRight (w (i - 2)) 10)
  Function.update w i (bitOr (r.add (r.add (r.add (w (i - 16)) s0) (w (i - 7))) s1) 0)

/-- One turn of the loop over `a`, …, `hh`. -/
def round (w : ℕ → ℚ) (v : Eight ℚ) (i : ℕ) : Eight ℚ :=
  let S1 := bitXor (bitXor (rotr v.e 6) (rotr v.e 11)) (rotr v.e 25)
  let ch := bitXor (bitAnd v.e v.f) (bitAnd (bitNot v.e) v.g)
  let t1 := bitOr (r.add (r.add (r.add (r.add v.h S1) ch) (K.getD i 0)) (w i)) 0
  let S0 := bitXor (bitXor (rotr v.a 2) (rotr v.a 13)) (rotr v.a 22)
  let maj := bitXor (bitXor (bitAnd v.a v.b) (bitAnd v.a v.c)) (bitAnd v.b v.c)
  let t2 := bitOr (r.add S0 maj) 0
  ⟨bitOr (r.add t1 t2) 0, v.a, v.b, v.c, bitOr (r.add v.d t1) 0, v.e, v.f, v.g⟩

/-- One chunk: the array `w` is the one of the chunk before. -/
def digestChunk (padded : List ℚ) (chunk : ℕ) (h : Eight ℚ) (w : ℕ → ℚ) : Eight ℚ × (ℕ → ℚ) :=
  let w := (List.range' 16 48).foldl (extend r) (readWords padded chunk w)
  let v := (List.range 64).foldl (round r w) h
  ((h.zipWith r.add v).map fun x => bitOr x 0, w)

def digestChunks (padded : List ℚ) (chunk : ℕ) (h : Eight ℚ) (w : ℕ → ℚ) : Eight ℚ :=
  if chunk < padded.length then
    let next := digestChunk r padded chunk h w
    digestChunks padded (chunk + 64) next.1 next.2
  else h
termination_by padded.length - chunk

def sha256 (bytes : List ℚ) : List UInt8 :=
  (digestChunks r (pad r bytes) 0 initial fun _ => 0).toList.flatMap fun x =>
    [toUint8 (bitAnd (unsignedShiftRight x 24) 0xff),
      toUint8 (bitAnd (unsignedShiftRight x 16) 0xff),
      toUint8 (bitAnd (unsignedShiftRight x 8) 0xff), toUint8 (bitAnd x 0xff)]

/-- `Array.from` of an array of bytes. -/
def arrayFrom (bytes : List UInt8) : List ℚ := bytes.map ofUint8

def hmacSha256 (keyBytes messageBytes : List UInt8) : List UInt8 :=
  let blockSize := 64
  let key := if keyBytes.length > blockSize then sha256 r (arrayFrom keyBytes) else keyBytes
  let padded := key ++ List.replicate (blockSize - key.length) 0
  let ipad := padded.map fun b => toUint8 (bitXor (ofUint8 b) 0x36)
  let opad := padded.map fun b => toUint8 (bitXor (ofUint8 b) 0x5c)
  let inner := sha256 r (arrayFrom ipad ++ arrayFrom messageBytes)
  sha256 r (arrayFrom opad ++ arrayFrom inner)

/-- `padStart(2, '0')`. -/
def padStart (digits : List Char) : List Char := List.replicate (2 - digits.length) '0' ++ digits

def toHex (bytes : List UInt8) : String :=
  String.ofList (bytes.flatMap fun b => padStart (Nat.toDigits 16 b.toNat))

def message (method target timestamp body : String) : String :=
  method ++ "\n" ++ target ++ "\n" ++ timestamp ++ "\n" ++ body

/-- `subtle` is the keyed hash of the browser, where it offers one. It may refuse a key. -/
def hmacSign (subtle : Option (List UInt8 → List UInt8 → Option (List UInt8)))
    (secret method target timestamp body : String) : Option String :=
  let secretBytes := utf8 secret
  let messageBytes := utf8 (message method target timestamp body)
  match subtle with
  | some sign => (sign secretBytes messageBytes).map fun signature => "sha256=" ++ toHex signature
  | none => some ("sha256=" ++ toHex (hmacSha256 r secretBytes messageBytes))

end Arithmetic

theorem pushZeros_eq (padded : List ℚ) :
    pushZeros padded = padded ++ List.replicate ((120 - padded.length % 64) % 64) 0 := by
  induction padded using pushZeros.induct with
  | case1 padded hmod ih =>
      have hcount : (120 - padded.length % 64) % 64 =
          (120 - (padded.length + 1) % 64) % 64 + 1 := by
        omega
      rw [pushZeros, if_pos hmod, ih, List.length_append, List.length_singleton, hcount,
        List.append_assoc, List.replicate_succ]
      rfl
  | case2 padded hmod =>
      have hcount : (120 - padded.length % 64) % 64 = 0 := by omega
      rw [pushZeros, if_neg hmod, hcount, List.replicate_zero, List.append_nil]

section Arithmetic
variable (r : Rounding)

/-- A byte of the length: neither the product nor the quotient is rounded. -/
theorem lengthByte_eq {n i : ℕ} (hn : n < 2 ^ 53) (hi : i ≤ 7) :
    bitAnd (r.div (r.mul n 8) (r.pow 2 (i * 8))) 0xff =
      ofUint8 (UInt8.ofNat (8 * n / 2 ^ (8 * i))) := by
  have hmul : r.mul n 8 = ((n * 2 ^ 3 : ℕ) : ℚ) := by
    have h := r.mul_two_pow hn (k := 3) (by decide)
    norm_num at h ⊢
    exact h
  have hcount : n * 2 ^ 3 = 8 * n := by omega
  rw [hmul, r.pow_two (by omega), r.div_two_pow hn (by decide) (by omega),
    bitAnd_255 (bits_natCast_div _ _), hcount, Nat.mul_comm i 8]
  congr 1
  apply UInt8.toBitVec_inj.mp
  exact BitVec.setWidth_ofNat_of_le (by decide : 8 ≤ 32) _

theorem pad_eq {bytes : List UInt8} (hlen : bytes.length < 2 ^ 53) :
    pad r (arrayFrom bytes) = arrayFrom (SecureHash.pad bytes) := by
  have hcount : (120 - (bytes.length + 1) % 64) % 64 =
      SecureHash.zeroBits (8 * bytes.length) / 8 := by
    unfold SecureHash.zeroBits
    omega
  have hzero : ofUint8 0 = 0 := rfl
  have hone : ofUint8 0x80 = 0x80 := rfl
  have hbytes : ∀ i ∈ [7, 6, 5, 4, 3, 2, 1, 0],
      bitAnd (r.div (r.mul (arrayFrom bytes).length 8) (r.pow 2 (i * 8))) 0xff =
        ofUint8 (UInt8.ofNat (8 * bytes.length / 2 ^ (8 * i))) := by
    intro i hi
    have hseven : i ≤ 7 := by
      revert i
      decide
    rw [arrayFrom, List.length_map]
    exact lengthByte_eq r hlen hseven
  unfold pad
  dsimp only
  rw [List.map_congr_left hbytes, pushZeros_eq]
  simp [arrayFrom, SecureHash.pad, SecureHash.lengthBytes, hcount, hzero, hone]

end Arithmetic

section Words
variable {k l : ℕ} {x y z : ℚ} {v u t : Word}

theorem rotr_carries (hx : Carries k x v) {n : ℕ} (hpos : 0 < n) (hn : n < 32) :
    Carries 1 (rotr x n) (SecureHash.rotr n v) :=
  (hx.unsignedShiftRight hn).bitOr (hx.shiftLeft (by omega))

/-- The shape of the four functions that mix three shifts of a word. -/
theorem bitXor₃_carries (hx : Carries 1 x v) (hy : Carries 1 y u) (hz : Carries 1 z t) :
    Carries 1 (bitXor (bitXor x y) z) (v ^^^ u ^^^ t) :=
  (hx.bitXor hy).bitXor hz

theorem ch_carries (hx : Carries 1 x v) (hy : Carries 1 y u) (hz : Carries 1 z t) :
    Carries 1 (bitXor (bitAnd x y) (bitAnd (bitNot x) z)) (SecureHash.ch v u t) :=
  (hx.bitAnd hy).bitXor (hx.bitNot.bitAnd hz)

theorem maj_carries (hx : Carries 1 x v) (hy : Carries 1 y u) (hz : Carries 1 z t) :
    Carries 1 (bitXor (bitXor (bitAnd x y) (bitAnd x z)) (bitAnd y z)) (SecureHash.maj v u t) :=
  bitXor₃_carries (hx.bitAnd hy) (hx.bitAnd hz) (hy.bitAnd hz)

end Words

theorem word_eq_shifts (b₀ b₁ b₂ b₃ : BitVec 8) :
    ((b₀.setWidth 32 <<< 24 ||| b₁.setWidth 32 <<< 16) ||| b₂.setWidth 32 <<< 8) |||
      b₃.setWidth 32 =
      b₀ ++ b₁ ++ b₂ ++ b₃ := by
  ext i hi
  simp
  grind

theorem messageWord_carries (padded : List UInt8) (offset : ℕ) :
    Carries 1 (messageWord (arrayFrom padded) offset) (SecureHash.wordAt padded offset) := by
  have hget : ∀ j, (arrayFrom padded).getD j 0 = ofUint8 (padded.getD j 0) := by
    intro j
    exact List.getD_map padded 0 ofUint8
  have hbyte : ∀ j, Carries 1 ((arrayFrom padded).getD j 0)
      ((padded.getD j 0).toBitVec.setWidth 32) := by
    intro j
    rw [hget j]
    exact carries_ofUint8 _
  have hword := ((((hbyte offset).shiftLeft (n := 24) (by decide)).bitOr
    ((hbyte (offset + 1)).shiftLeft (n := 16) (by decide))).bitOr
    ((hbyte (offset + 2)).shiftLeft (n := 8) (by decide))).bitOr (hbyte (offset + 3))
  rw [word_eq_shifts] at hword
  exact hword

/-- The array holds the words computed so far. -/
def HoldsWords (w : ℕ → ℚ) (words : List Word) : Prop :=
  ∀ i < words.length, Carries 1 (w i) (words.getD i 0)

theorem HoldsWords.push {w : ℕ → ℚ} {words : List Word} (h : HoldsWords w words) {x : ℚ} {v : Word}
    (hx : Carries 1 x v) : HoldsWords (Function.update w words.length x) (words ++ [v]) := by
  intro i hi
  rw [List.length_append, List.length_singleton] at hi
  by_cases hlast : i = words.length
  · rw [hlast, Function.update_self, List.getD_append_right _ _ _ _ le_rfl, Nat.sub_self]
    exact hx
  · have hlt : i < words.length := by omega
    rw [Function.update_of_ne hlast, List.getD_append _ _ _ _ hlt]
    exact h i hlt

theorem readWords_holds (padded : List UInt8) (j : ℕ) (w : ℕ → ℚ) :
    HoldsWords (readWords (arrayFrom padded) (64 * j) w) (SecureHash.block padded j) := by
  -- After `n` turns the array holds the first `n` words of the block.
  have hturns : ∀ n, HoldsWords
      ((List.range n).foldl
        (fun w i => Function.update w i (messageWord (arrayFrom padded) (64 * j + i * 4))) w)
      ((List.range n).map fun i => SecureHash.wordAt padded (64 * j + 4 * i)) := by
    intro n
    induction n with
    | zero =>
        intro i hi
        exact absurd hi (Nat.not_lt_zero i)
    | succ n ih =>
        have hword := messageWord_carries padded (64 * j + n * 4)
        have hpush := ih.push hword
        rw [List.length_map, List.length_range] at hpush
        rw [List.range_succ, List.foldl_append, List.map_append]
        rw [Nat.mul_comm n 4] at hpush
        simpa [Nat.mul_comm n 4] using hpush
  exact hturns 16

section Arithmetic
variable (r : Rounding)

theorem HoldsWords.extend {w : ℕ → ℚ} {words : List Word} (h : HoldsWords w words)
    (hlen : 16 ≤ words.length) :
    HoldsWords (extend r w words.length) (SecureHash.extend words words.length) := by
  have h2 := h (words.length - 2) (by omega)
  have h7 := h (words.length - 7) (by omega)
  have h15 := h (words.length - 15) (by omega)
  have h16 := h (words.length - 16) (by omega)
  have hs0 := bitXor₃_carries (rotr_carries h15 (n := 7) (by decide) (by decide))
    (rotr_carries h15 (n := 18) (by decide) (by decide))
      (h15.unsignedShiftRight (n := 3) (by decide))
  have hs1 := bitXor₃_carries (rotr_carries h2 (n := 17) (by decide) (by decide))
    (rotr_carries h2 (n := 19) (by decide) (by decide))
      (h2.unsignedShiftRight (n := 10) (by decide))
  have hsum := (((h16.add r hs0 (by decide)).add r h7 (by decide)).add r hs1 (by decide)).bitOr_zero
  have hpush := h.push hsum
  -- The standard adds the same four words in the opposite order.
  have horder : ∀ a b c d : Word, a + b + c + d = d + c + b + a := by
    intro a b c d
    ac_rfl
  rw [horder] at hpush
  exact hpush

theorem schedule_holds {w : ℕ → ℚ} {words : List Word} (h : HoldsWords w words)
    (hlen : words.length = 16) :
    HoldsWords ((List.range' 16 48).foldl (PureCrypto.extend r) w) (SecureHash.schedule words) ∧
      (SecureHash.schedule words).length = 64 := by
  have hturns : ∀ n, HoldsWords ((List.range' 16 n).foldl (PureCrypto.extend r) w)
      ((List.range' 16 n).foldl SecureHash.extend words) ∧
      ((List.range' 16 n).foldl SecureHash.extend words).length = 16 + n := by
    intro n
    induction n with
    | zero => exact ⟨h, hlen⟩
    | succ n ih =>
        obtain ⟨hn, hlenn⟩ := ih
        have hnext := hn.extend r (by omega)
        rw [hlenn] at hnext
        rw [List.range'_concat, List.foldl_append, List.foldl_append, Nat.one_mul]
        refine ⟨hnext, ?_⟩
        simp only [List.foldl_cons, List.foldl_nil, SecureHash.extend, List.length_append,
          List.length_singleton, hlenn]
        omega
  exact hturns 48

theorem K_carries (i : ℕ) : Carries 1 (K.getD i 0) (SecureHash.roundConstants.getD i 0) := by
  have hlist : K = SecureHash.roundConstants.map fun c => (c.toNat : ℚ) := by decide +kernel
  have hget : K.getD i 0 = ((SecureHash.roundConstants.getD i 0).toNat : ℚ) := by
    rw [hlist]
    exact List.getD_map SecureHash.roundConstants 0 fun c => (c.toNat : ℚ)
  rw [hget]
  exact carries_toNat _

theorem initial_carries : initial.Rel (Carries 1) SecureHash.initialHash := by
  have hinitial : initial = SecureHash.initialHash.map fun c => (c.toNat : ℚ) := by decide +kernel
  rw [hinitial]
  exact ⟨carries_toNat _, carries_toNat _, carries_toNat _, carries_toNat _, carries_toNat _,
    carries_toNat _, carries_toNat _, carries_toNat _⟩

theorem round_carries {w : ℕ → ℚ} {words : List Word} (hw : HoldsWords w words) {i : ℕ}
    (hi : i < words.length) {x : Eight ℚ} {v : Eight Word} (h : x.Rel (Carries 1) v) :
    (round r w x i).Rel (Carries 1) (SecureHash.round words v i) := by
  have hS1 := bitXor₃_carries (rotr_carries h.e (n := 6) (by decide) (by decide))
    (rotr_carries h.e (n := 11) (by decide) (by decide))
      (rotr_carries h.e (n := 25) (by decide) (by decide))
  have hS0 := bitXor₃_carries (rotr_carries h.a (n := 2) (by decide) (by decide))
    (rotr_carries h.a (n := 13) (by decide) (by decide))
      (rotr_carries h.a (n := 22) (by decide) (by decide))
  have ht1 := ((((h.h.add r hS1 (by decide)).add r (ch_carries h.e h.f h.g) (by decide)).add r
    (K_carries i) (by decide)).add r (hw i hi) (by decide)).bitOr_zero
  have ht2 := (hS0.add r (maj_carries h.a h.b h.c) (by decide)).bitOr_zero
  exact ⟨(ht1.add r ht2 (by decide)).bitOr_zero, h.a, h.b, h.c,
    (h.d.add r ht1 (by decide)).bitOr_zero, h.e, h.f, h.g⟩

theorem sum_carries {x y : Eight ℚ} {v u : Eight Word} (hx : x.Rel (Carries 1) v)
    (hy : y.Rel (Carries 1) u) :
    ((x.zipWith r.add y).map fun x => bitOr x 0).Rel (Carries 1) (v.zipWith (· + ·) u) := by
  have hsum : ∀ {x y : ℚ} {v u : Word}, Carries 1 x v → Carries 1 y u →
      Carries 1 (bitOr (r.add x y) 0) (v + u) := by
    intro x y v u hx hy
    exact (hx.add r hy (by decide)).bitOr_zero
  exact ⟨hsum hx.a hy.a, hsum hx.b hy.b, hsum hx.c hy.c, hsum hx.d hy.d, hsum hx.e hy.e,
    hsum hx.f hy.f, hsum hx.g hy.g, hsum hx.h hy.h⟩

theorem digestChunk_carries (padded : List UInt8) (j : ℕ) {h : Eight ℚ} {hash : Eight Word}
    (hh : h.Rel (Carries 1) hash) (w : ℕ → ℚ) :
    (digestChunk r (arrayFrom padded) (64 * j) h w).1.Rel (Carries 1)
      (SecureHash.compress hash (SecureHash.block padded j)) := by
  have hblock : (SecureHash.block padded j).length = 16 := by
    rw [SecureHash.block, List.length_map, List.length_range]
  obtain ⟨hschedule, hlen⟩ := schedule_holds r (readWords_holds padded j w) hblock
  unfold digestChunk SecureHash.compress
  refine sum_carries r hh (List.foldl_rel hh ?_)
  intro i hi x v hx
  have hlt : i < (SecureHash.schedule (SecureHash.block padded j)).length := by
    rw [hlen]
    exact List.mem_range.mp hi
  exact round_carries r hschedule hlt hx

theorem digestChunks_carries {padded : List UInt8} {total : ℕ} (hlen : padded.length = 64 * total)
    {h : Eight ℚ} {hash : Eight Word} (hh : h.Rel (Carries 1) hash) (w : ℕ → ℚ) {j n : ℕ}
    (hn : j + n = total) :
    (digestChunks r (arrayFrom padded) (64 * j) h w).Rel (Carries 1)
      ((List.range' j n).foldl (fun hash i => SecureHash.compress hash (SecureHash.block padded i))
        hash) := by
  have hlength : (arrayFrom padded).length = 64 * total := by rw [arrayFrom, List.length_map, hlen]
  induction n generalizing j h hash w with
  | zero =>
      rw [digestChunks, if_neg (by omega)]
      exact hh
  | succ n ih =>
      rw [digestChunks, if_pos (by omega), List.range'_succ, List.foldl_cons]
      exact ih (digestChunk_carries r padded j hh w) _ (j := j + 1) (by omega)

theorem outputBytes_eq {x : ℚ} {v : Word} (hx : Carries 1 x v) :
    [toUint8 (bitAnd (unsignedShiftRight x 24) 0xff),
      toUint8 (bitAnd (unsignedShiftRight x 16) 0xff),
      toUint8 (bitAnd (unsignedShiftRight x 8) 0xff), toUint8 (bitAnd x 0xff)] =
        SecureHash.wordBytes v := by
  have hshift : ∀ i, (v >>> i).setWidth 8 = v.extractLsb' i 8 := by
    intro i
    apply BitVec.eq_of_toNat_eq
    simp
  rw [(hx.unsignedShiftRight (n := 24) (by decide)).byte,
    (hx.unsignedShiftRight (n := 16) (by decide)).byte,
    (hx.unsignedShiftRight (n := 8) (by decide)).byte, hx.byte, hshift, hshift, hshift]
  have hlast := hshift 0
  rw [BitVec.ushiftRight_zero] at hlast
  rw [hlast]
  rfl

theorem sha256_eq {bytes : List UInt8} (hlen : bytes.length < 2 ^ 53) :
    sha256 r (arrayFrom bytes) = SecureHash.sha256 bytes := by
  have hblocks : (SecureHash.pad bytes).length = 64 * ((SecureHash.pad bytes).length / 64) := by
    have hmod := SecureHash.length_pad_mod bytes
    omega
  have hhash :=
    digestChunks_carries r hblocks initial_carries (fun _ => 0) (j := 0) (Nat.zero_add _)
  rw [← List.range_eq_range'] at hhash
  unfold sha256 SecureHash.sha256
  rw [pad_eq r hlen]
  simp only [Eight.toList, List.flatMap_cons, List.flatMap_nil]
  rw [outputBytes_eq hhash.a, outputBytes_eq hhash.b, outputBytes_eq hhash.c,
    outputBytes_eq hhash.d,
    outputBytes_eq hhash.e, outputBytes_eq hhash.f, outputBytes_eq hhash.g, outputBytes_eq hhash.h]

theorem hmacSha256_eq {key message : List UInt8} (hkey : key.length < 2 ^ 53)
    (hmessage : 64 + message.length < 2 ^ 53) :
    hmacSha256 r key message = SecureHash.hmacSha256 key message := by
  have hblock : (SecureHash.blockKey SecureHash.sha256 64 key).length = 64 :=
    SecureHash.length_blockKey (by rw [SecureHash.length_sha256]; decide)
  -- A block of masked key bytes before the text, for either of the two hashes.
  have hmasked : ∀ (mask : UInt8) (text : List UInt8), 64 + text.length < 2 ^ 53 →
      sha256 r (arrayFrom ((SecureHash.blockKey SecureHash.sha256 64 key).map fun b =>
        toUint8 (bitXor (ofUint8 b) (ofUint8 mask))) ++ arrayFrom text) =
      SecureHash.sha256
        ((SecureHash.blockKey SecureHash.sha256 64 key).map (· ^^^ mask) ++ text) := by
    intro mask text htext
    simp only [toUint8_bitXor]
    rw [← sha256_eq r (by rw [List.length_append, List.length_map, hblock]; exact htext), arrayFrom,
      arrayFrom, arrayFrom, List.map_append]
  have hinner := hmasked 0x36 message hmessage
  have houter := hmasked 0x5c (SecureHash.sha256 ((SecureHash.blockKey SecureHash.sha256 64 key).map
    (· ^^^ 0x36) ++ message)) (by rw [SecureHash.length_sha256]; decide)
  unfold hmacSha256
  rw [sha256_eq r hkey]
  exact (congrArg (fun inner => sha256 r (_ ++ arrayFrom inner)) hinner).trans houter

end Arithmetic

theorem toHex_eq (bytes : List UInt8) : toHex bytes = hexText bytes := by
  have hdigits : ∀ n < 256, padStart (Nat.toDigits 16 n) =
      [hexDigitChar (n / 16), hexDigitChar (n % 16)] := by
    decide +kernel
  have hbyte : ∀ b : UInt8, padStart (Nat.toDigits 16 b.toNat) =
      [hexDigitChar (b.toNat / 16), hexDigitChar (b.toNat % 16)] := by
    intro b
    exact hdigits b.toNat b.toNat_lt
  simp only [toHex, hexText, hbyte]

theorem utf8_append (s t : String) : utf8 (s ++ t) = utf8 s ++ utf8 t := by
  simp [utf8]

theorem utf8_message (method target timestamp body : String) :
    utf8 (message method target timestamp body) =
      canonicalV1Payload method target timestamp (utf8 body) := by
  have hnewline : utf8 "\n" = [newline] := by decide
  simp [message, canonicalV1Payload, utf8_append, hnewline]

/-- Whatever is rounded, and however: the bytes are those of the standard, and the header is
the one a server computes whose crate is that standard. -/
theorem fallback_signer_correct (r : Rounding) :
    (∀ keyBytes messageBytes : List UInt8,
      8 * keyBytes.length < 2 ^ 53 → 8 * messageBytes.length < 2 ^ 53 →
      hmacSha256 r keyBytes messageBytes = SecureHash.hmacSha256 keyBytes messageBytes) ∧
    ∀ crates : Crates,
      (∀ secret, crates.hmacSha256 secret = some (SecureHash.hmacSha256 (utf8 secret))) →
      ∀ secret method target timestamp body : String,
        8 * (utf8 secret).length < 2 ^ 53 →
        8 * (utf8 (message method target timestamp body)).length < 2 ^ 53 →
        hmacSign r none secret method target timestamp body =
          computeSignature crates secret
            (canonicalV1Payload method target timestamp (utf8 body)) := by
  have hmac : ∀ keyBytes messageBytes : List UInt8,
      8 * keyBytes.length < 2 ^ 53 → 8 * messageBytes.length < 2 ^ 53 →
      hmacSha256 r keyBytes messageBytes = SecureHash.hmacSha256 keyBytes messageBytes := by
    intro keyBytes messageBytes hkey hmessage
    exact hmacSha256_eq r (by omega) (by omega)
  refine ⟨hmac, ?_⟩
  intro crates hcrate secret method target timestamp body hsecret hmessage
  have hbytes := hmac (utf8 secret) _ hsecret hmessage
  rw [utf8_message] at hbytes
  simp only [hmacSign, utf8_message, hbytes, toHex_eq, computeSignature, hcrate, Option.map_some]
  rfl

/-- A rounding that never has to round. -/
def exactNumbers : Rounding := ⟨id, fun _ _ => rfl⟩

def standardCrates : Crates :=
  { sampleCrates with hmacSha256 := fun secret => some (SecureHash.hmacSha256 (utf8 secret)) }

theorem fallback_signer_correct_authMe :
    hmacSha256 exactNumbers [0x6b] [0x6d] = SecureHash.hmacSha256 [0x6b] [0x6d] ∧
      hmacSign exactNumbers none "secret" "GET" "/api/auth/me" "1700000000" "" =
        computeSignature standardCrates "secret"
          (canonicalV1Payload "GET" "/api/auth/me" "1700000000" (utf8 "")) :=
  ⟨(fallback_signer_correct exactNumbers).1 [0x6b] [0x6d] (by decide) (by decide),
    (fallback_signer_correct exactNumbers).2 standardCrates (fun _ => rfl) "secret" "GET"
      "/api/auth/me"
      "1700000000" "" (by decide) (by decide)⟩

end SimplyIpExporter.PureCrypto
