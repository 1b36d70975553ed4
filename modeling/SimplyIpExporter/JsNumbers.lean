import Mathlib.Data.Rat.Floor
import Mathlib.Algebra.Order.Field.Power
import Mathlib.Tactic.Positivity
import Mathlib.Tactic.Linarith

/-!
# Numbers of JavaScript

A number is a double. Sums, products and quotients are computed exactly and then rounded;
of the rounding only this much is used, that it leaves a value alone which is a double
already. The bitwise operators drop the fraction of an operand, take it modulo `2 ^ 32` and
answer the signed reading of the result, the unsigned shift to the right the unsigned one.

A number carries a word when it is an integer congruent to it. Bitwise operators see the
word only. Sums of a few numbers below `2 ^ 32` are exact and carry the sum of the words.
-/
namespace SimplyIpExporter.JsNumbers

/-- The finite values of a double. -/
def Double (q : ℚ) : Prop := ∃ m e : ℤ, |m| < 2 ^ 53 ∧ -1074 ≤ e ∧ e ≤ 971 ∧ q = m * 2 ^ e

structure Rounding where
  round : ℚ → ℚ
  exact : ∀ q, Double q → round q = q

section Arithmetic
variable (r : Rounding)

def Rounding.add (x y : ℚ) : ℚ := r.round (x + y)

def Rounding.mul (x y : ℚ) : ℚ := r.round (x * y)

def Rounding.div (x y : ℚ) : ℚ := r.round (x / y)

def Rounding.pow (x : ℚ) (n : ℕ) : ℚ := r.round (x ^ n)

end Arithmetic

/-- The integer part, towards zero. -/
def truncate (x : ℚ) : ℤ := if 0 ≤ x then ⌊x⌋ else ⌈x⌉

/-- What the bitwise operators see of a number. -/
def bits (x : ℚ) : BitVec 32 := BitVec.ofInt 32 (truncate x)

def bitAnd (x y : ℚ) : ℚ := (bits x &&& bits y).toInt

def bitOr (x y : ℚ) : ℚ := (bits x ||| bits y).toInt

def bitXor (x y : ℚ) : ℚ := (bits x ^^^ bits y).toInt

def bitNot (x : ℚ) : ℚ := (~~~bits x).toInt

def shiftLeft (x : ℚ) (n : ℕ) : ℚ := (bits x <<< (n % 32)).toInt

def unsignedShiftRight (x : ℚ) (n : ℕ) : ℚ := (bits x >>> (n % 32)).toNat

/-- What is stored into an array of bytes. -/
def toUint8 (x : ℚ) : UInt8 := UInt8.ofBitVec (BitVec.ofInt 8 (truncate x))

/-- What is read from it. -/
def ofUint8 (b : UInt8) : ℚ := b.toNat

/-- An integer below `k * 2 ^ 32` in absolute value that is congruent to the word. -/
def Carries (k : ℕ) (x : ℚ) (v : BitVec 32) : Prop :=
  ∃ n : ℤ, x = n ∧ |n| < k * 2 ^ 32 ∧ BitVec.ofInt 32 n = v

section Carries
variable {k l : ℕ} {x y : ℚ} {v u : BitVec 32}

theorem truncate_intCast (n : ℤ) : truncate n = n := by
  unfold truncate
  split
  · exact Int.floor_intCast n
  · exact Int.ceil_intCast n

theorem Carries.bits (h : Carries k x v) : bits x = v := by
  obtain ⟨n, rfl, -, hv⟩ := h
  rw [JsNumbers.bits, truncate_intCast, hv]

theorem carries_toInt (v : BitVec 32) : Carries 1 v.toInt v := by
  have hlow := v.le_toInt
  have hhigh : v.toInt < 2 ^ (32 - 1) := BitVec.toInt_lt
  refine ⟨v.toInt, rfl, abs_lt.mpr ⟨?_, ?_⟩, BitVec.ofInt_toInt⟩
  · omega
  · omega

theorem carries_natCast {n : ℕ} (hn : n < 2 ^ 32) : Carries 1 n (BitVec.ofNat 32 n) := by
  refine ⟨n, rfl, ?_, BitVec.ofInt_natCast 32 n⟩
  rw [Nat.abs_cast]
  omega

theorem carries_toNat (v : BitVec 32) : Carries 1 v.toNat v := by
  have h := carries_natCast v.isLt
  rwa [BitVec.ofNat_toNat, BitVec.setWidth_eq] at h

theorem Carries.bitAnd (hx : Carries k x v) (hy : Carries l y u) :
    Carries 1 (bitAnd x y) (v &&& u) := by
  rw [JsNumbers.bitAnd, hx.bits, hy.bits]
  exact carries_toInt _

theorem Carries.bitOr (hx : Carries k x v) (hy : Carries l y u) :
    Carries 1 (bitOr x y) (v ||| u) := by
  rw [JsNumbers.bitOr, hx.bits, hy.bits]
  exact carries_toInt _

theorem Carries.bitXor (hx : Carries k x v) (hy : Carries l y u) :
    Carries 1 (bitXor x y) (v ^^^ u) := by
  rw [JsNumbers.bitXor, hx.bits, hy.bits]
  exact carries_toInt _

theorem Carries.bitNot (hx : Carries k x v) : Carries 1 (bitNot x) (~~~v) := by
  rw [JsNumbers.bitNot, hx.bits]
  exact carries_toInt _

theorem Carries.shiftLeft (hx : Carries k x v) {n : ℕ} (hn : n < 32) :
    Carries 1 (shiftLeft x n) (v <<< n) := by
  rw [JsNumbers.shiftLeft, hx.bits, Nat.mod_eq_of_lt hn]
  exact carries_toInt _

theorem Carries.unsignedShiftRight (hx : Carries k x v) {n : ℕ} (hn : n < 32) :
    Carries 1 (unsignedShiftRight x n) (v >>> n) := by
  rw [JsNumbers.unsignedShiftRight, hx.bits, Nat.mod_eq_of_lt hn]
  exact carries_toNat _

/-- The idiom that takes a sum back to thirty-two bits. -/
theorem Carries.bitOr_zero (hx : Carries k x v) : Carries 1 (JsNumbers.bitOr x 0) v := by
  have hzero : Carries 1 0 (0#32) := carries_natCast (n := 0) (by decide)
  have h := hx.bitOr hzero
  rwa [BitVec.or_zero] at h

theorem double_intCast {n : ℤ} (hn : |n| < 2 ^ 53) : Double n :=
  ⟨n, 0, hn, by decide, by decide, by simp⟩

/-- Sums of a few numbers are not rounded. -/
theorem Carries.add (r : Rounding) (hx : Carries k x v) (hy : Carries l y u)
    (hkl : k + l ≤ 2 ^ 20) :
    Carries (k + l) (r.add x y) (v + u) := by
  obtain ⟨n, rfl, hn, rfl⟩ := hx
  obtain ⟨m, rfl, hm, rfl⟩ := hy
  have habs : |n + m| < ((k + l : ℕ) : ℤ) * 2 ^ 32 := by
    have htri := abs_add_le n m
    push_cast
    linarith
  have hexact : r.add n m = ((n + m : ℤ) : ℚ) := by
    rw [Rounding.add, ← Int.cast_add]
    refine r.exact _ (double_intCast (habs.trans_le ?_))
    have hkl' : ((k + l : ℕ) : ℤ) ≤ 2 ^ 20 := by exact_mod_cast hkl
    linarith
  exact ⟨n + m, hexact, habs, BitVec.ofInt_add n m⟩

theorem carries_ofUint8 (b : UInt8) : Carries 1 (ofUint8 b) (b.toBitVec.setWidth 32) := by
  have h := carries_natCast (n := b.toNat) (by have := b.toNat_lt; omega)
  rwa [UInt8.toNat, BitVec.ofNat_toNat] at h

theorem Carries.toUint8 (hx : Carries k x v) : toUint8 x = UInt8.ofBitVec (v.setWidth 8) := by
  obtain ⟨n, rfl, -, rfl⟩ := hx
  have hlow : BitVec.ofInt 8 n = (BitVec.ofInt 32 n).setWidth 8 := by
    apply BitVec.eq_of_toNat_eq
    rw [BitVec.toNat_setWidth, BitVec.toNat_ofInt, BitVec.toNat_ofInt]
    omega
  rw [JsNumbers.toUint8, truncate_intCast, hlow]

theorem toUint8_ofUint8 (b : UInt8) : toUint8 (ofUint8 b) = b := by
  rw [(carries_ofUint8 b).toUint8, BitVec.setWidth_setWidth_of_le _ (by decide), BitVec.setWidth_eq]

theorem toUint8_bitXor (b c : UInt8) : toUint8 (bitXor (ofUint8 b) (ofUint8 c)) = b ^^^ c := by
  rw [((carries_ofUint8 b).bitXor (carries_ofUint8 c)).toUint8, BitVec.setWidth_xor,
    BitVec.setWidth_setWidth_of_le _ (by decide), BitVec.setWidth_setWidth_of_le _ (by decide),
    BitVec.setWidth_eq, BitVec.setWidth_eq]
  rfl

/-- The mask keeps the last eight bits, which are not negative. -/
theorem bitAnd_255 (hx : bits x = v) : bitAnd x 255 = ofUint8 (UInt8.ofBitVec (v.setWidth 8)) := by
  have hmask : bits 255 = 255#32 := (carries_natCast (n := 255) (by decide)).bits
  have hnat : (v &&& 255#32).toNat = v.toNat % 2 ^ 8 := by
    rw [BitVec.toNat_and]
    exact Nat.and_two_pow_sub_one_eq_mod v.toNat 8
  have hint : (v &&& 255#32).toInt = ((v.toNat % 2 ^ 8 : ℕ) : ℤ) := by
    rw [BitVec.toInt_eq_toNat_of_lt (by rw [hnat]; omega), hnat]
  rw [bitAnd, hx, hmask, hint, Int.cast_natCast]
  simp [ofUint8]

theorem Carries.byte (hx : Carries k x v) :
    JsNumbers.toUint8 (JsNumbers.bitAnd x 255) = UInt8.ofBitVec (v.setWidth 8) := by
  rw [bitAnd_255 hx.bits, toUint8_ofUint8]

theorem double_mul_zpow {n : ℕ} (hn : n < 2 ^ 53) {e : ℤ} (hlow : -1074 ≤ e) (hhigh : e ≤ 971) :
    Double (n * 2 ^ e) := by
  refine ⟨n, e, ?_, hlow, hhigh, by simp⟩
  rw [Nat.abs_cast]
  exact_mod_cast hn

theorem truncate_natCast_div (a b : ℕ) : truncate ((a : ℚ) / b) = ((a / b : ℕ) : ℤ) := by
  have hnonneg : (0 : ℚ) ≤ (a : ℚ) / b := by positivity
  have hfloor := Rat.floor_intCast_div_natCast (a : ℤ) b
  rw [Int.cast_natCast] at hfloor
  rw [truncate, if_pos hnonneg, hfloor, Int.natCast_div]

theorem bits_natCast_div (a b : ℕ) : bits ((a : ℚ) / b) = BitVec.ofNat 32 (a / b) := by
  rw [bits, truncate_natCast_div, BitVec.ofInt_natCast]

end Carries

section Scaling
variable (r : Rounding) {n : ℕ}

/-- Scaling by powers of two is not rounded. -/
theorem Rounding.mul_two_pow (hn : n < 2 ^ 53) {k : ℕ} (hk : k ≤ 971) :
    r.mul n (2 ^ k) = ((n * 2 ^ k : ℕ) : ℚ) := by
  have hdouble := double_mul_zpow hn (e := k) (by omega) (by omega)
  rw [zpow_natCast] at hdouble
  rw [Rounding.mul, r.exact _ hdouble]
  push_cast
  rfl

theorem Rounding.pow_two {k : ℕ} (hk : k ≤ 971) : r.pow 2 k = ((2 ^ k : ℕ) : ℚ) := by
  have hdouble := double_mul_zpow (n := 1) (by decide) (e := k) (by omega) (by omega)
  rw [zpow_natCast, Nat.cast_one, one_mul] at hdouble
  rw [Rounding.pow, r.exact _ hdouble]
  push_cast
  rfl

theorem Rounding.div_two_pow (hn : n < 2 ^ 53) {k l : ℕ} (hk : k ≤ 971) (hl : l ≤ 1074) :
    r.div ((n * 2 ^ k : ℕ) : ℚ) ((2 ^ l : ℕ) : ℚ) = ((n * 2 ^ k : ℕ) : ℚ) / ((2 ^ l : ℕ) : ℚ) := by
  have hdouble := double_mul_zpow hn (e := (k : ℤ) - l) (by omega) (by omega)
  have hscaled : ((n * 2 ^ k : ℕ) : ℚ) / ((2 ^ l : ℕ) : ℚ) = n * 2 ^ ((k : ℤ) - l) := by
    rw [zpow_sub₀ two_ne_zero, zpow_natCast, zpow_natCast]
    push_cast
    exact mul_div_assoc _ _ _
  rw [Rounding.div]
  refine r.exact _ ?_
  rw [hscaled]
  exact hdouble

end Scaling
end SimplyIpExporter.JsNumbers
