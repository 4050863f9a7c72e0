import Mathlib
import Formula.Binary64

namespace Formula.Binary64

open Float.Model (Format)
open Float.Model.UnpackedFloat

abbrev Word : Type := BitVec Format.binary64.numBits

theorem toNat_unpackMantissa (b : Word) : (unpackMantissa b).toNat = b.toNat % 2 ^ 52 := by
  simp [unpackMantissa]

theorem toNat_unpackExponent (b : Word) :
    (unpackExponent b).toNat = b.toNat / 2 ^ 52 % 2 ^ 11 := by
  simp [unpackExponent, Nat.shiftRight_eq_div_pow]

theorem toNat_unpackSign (b : Word) : (unpackSign b).toNat = b.toNat / 2 ^ 63 % 2 := by
  simp [unpackSign, Nat.shiftRight_eq_div_pow]

def bits (x : Float) : Word := x.toBits.toBitVec

theorem valid_bits (x : Float) : Format.binary64.Valid (bits x) := x.toModel.valid

theorem eq_of_bits {x y : Float} (h : bits x = bits y) : x = y :=
  Float.toBits_inj.1 (UInt64.toBitVec_inj.1 h)

theorem bits_ofBits (b : Word) :
    bits (Float.ofBits (UInt64.ofBitVec b)) = pack Format.binary64 (unpack Format.binary64 b) :=
  rfl

def word (negative : Bool) (w : Nat) : Word :=
  BitVec.ofNat 64 (if negative then signBit + w else w)

theorem toNat_word (negative : Bool) {w : Nat} (h : w < signBit) :
    (word negative w).toNat = if negative then signBit + w else w := by
  have hbit : signBit = 2 ^ 63 := rfl
  change (if negative then signBit + w else w) % 2 ^ 64 = _
  split <;> omega

theorem lt_signBit_of_le_infinity {w : Nat} (h : w ≤ infinity) : w < signBit :=
  Nat.lt_of_le_of_lt h (by decide)

theorem toNat_unpackMantissa_word (negative : Bool) {w : Nat} (h : w < signBit) :
    (unpackMantissa (word negative w)).toNat = w % 2 ^ 52 := by
  have hbit : signBit = 2 ^ 63 := rfl
  rw [toNat_unpackMantissa, toNat_word negative h]
  split <;> omega

theorem toNat_unpackExponent_word (negative : Bool) {w : Nat} (h : w < signBit) :
    (unpackExponent (word negative w)).toNat = w / 2 ^ 52 := by
  have hbit : signBit = 2 ^ 63 := rfl
  rw [toNat_unpackExponent, toNat_word negative h]
  split <;> omega

theorem ofBitVec_unpackSign_word (negative : Bool) {w : Nat} (h : w < signBit) :
    Sign.ofBitVec (unpackSign (word negative w)) = if negative then .negative else .positive := by
  have hbit : signBit = 2 ^ 63 := rfl
  have hsign : unpackSign (word negative w) = if negative then 1#1 else 0#1 := by
    rw [← BitVec.toNat_inj, toNat_unpackSign, toNat_word negative h]
    cases negative
    · change w / 2 ^ 63 % 2 = 0
      omega
    · change (signBit + w) / 2 ^ 63 % 2 = 1
      omega
  rw [hsign]
  cases negative <;> rfl

theorem valid_word (negative : Bool) {w : Nat} (h : w ≤ infinity) :
    Format.binary64.Valid (word negative w) := by
  have hw := lt_signBit_of_le_infinity h
  have hinfinity : infinity = 2047 * 2 ^ 52 := rfl
  constructor
  intro hlast hzero
  have hexponent : w / 2 ^ 52 = 2047 := by
    rw [← toNat_unpackExponent_word negative hw, hlast]
    rfl
  refine absurd ?_ hzero
  rw [← BitVec.toNat_inj, toNat_unpackMantissa_word negative hw]
  change w % 2 ^ 52 = 0
  omega

theorem bits_ofMagnitude (negative : Bool) {w : Nat} (h : w ≤ infinity) :
    bits (ofMagnitude negative w) = word negative w :=
  (bits_ofBits (word negative w)).trans (pack_unpack_of_valid (valid_word negative h))

theorem toNat_toBits_ofMagnitude (negative : Bool) {w : Nat} (h : w ≤ infinity) :
    (ofMagnitude negative w).toBits.toNat = if negative then signBit + w else w :=
  (congrArg BitVec.toNat (bits_ofMagnitude negative h)).trans
    (toNat_word negative (lt_signBit_of_le_infinity h))

theorem magnitude_ofMagnitude (negative : Bool) {w : Nat} (h : w ≤ infinity) :
    magnitude (ofMagnitude negative w) = w := by
  have hw := lt_signBit_of_le_infinity h
  rw [magnitude, toNat_toBits_ofMagnitude negative h]
  cases negative
  · exact Nat.mod_eq_of_lt hw
  · simp [Nat.mod_eq_of_lt hw]

theorem isNegative_ofMagnitude (negative : Bool) {w : Nat} (h : w ≤ infinity) :
    isNegative (ofMagnitude negative w) = negative := by
  have hw := lt_signBit_of_le_infinity h
  rw [isNegative, toNat_toBits_ofMagnitude negative h]
  cases negative
  · simpa using hw
  · simp

theorem ofMagnitude_magnitude (x : Float) : ofMagnitude (isNegative x) (magnitude x) = x := by
  have hbit : signBit = 2 ^ 63 := rfl
  have hlt : x.toBits.toNat < 2 ^ 64 := x.toBits.toNat_lt
  have hword : (if isNegative x then signBit + magnitude x else magnitude x) =
      x.toBits.toNat := by
    simp only [isNegative, magnitude, decide_eq_true_eq, hbit]
    split <;> omega
  rw [ofMagnitude, hword, UInt64.ofNat_toNat, Float.ofBits_toBits]

theorem eq_nan_of_infinity_lt {x : Float} (h : infinity < magnitude x) :
    x = ofMagnitude false (infinity + 1) := by
  have hbit : signBit = 2 ^ 63 := rfl
  have hinfinity : infinity = 2047 * 2 ^ 52 := rfl
  have hlt : magnitude x < signBit := Nat.mod_lt _ (by decide)
  rw [magnitude, hbit] at h hlt
  have hlast : unpackExponent (bits x) = -1#11 := by
    rw [← BitVec.toNat_inj, toNat_unpackExponent]
    change x.toBits.toNat / 2 ^ 52 % 2 ^ 11 = 2047
    omega
  have hfraction : unpackMantissa (bits x) ≠ 0#52 := by
    rw [ne_eq, ← BitVec.toNat_inj, toNat_unpackMantissa]
    change x.toBits.toNat % 2 ^ 52 ≠ 0
    omega
  apply eq_of_bits
  rw [(valid_bits x).eq_packedNaN hlast hfraction]
  rfl

theorem unpack_word_not (negative : Bool) {w : Nat} (h : w < signBit) :
    unpack Format.binary64 (word (!negative) w) =
      (unpack Format.binary64 (word negative w)).neg := by
  have hfraction : unpackMantissa (word (!negative) w) = unpackMantissa (word negative w) := by
    rw [← BitVec.toNat_inj, toNat_unpackMantissa_word _ h, toNat_unpackMantissa_word _ h]
  have hexponent : unpackExponent (word (!negative) w) = unpackExponent (word negative w) := by
    rw [← BitVec.toNat_inj, toNat_unpackExponent_word _ h, toNat_unpackExponent_word _ h]
  have hsign : Sign.ofBitVec (unpackSign (word (!negative) w)) =
      -Sign.ofBitVec (unpackSign (word negative w)) := by
    rw [ofBitVec_unpackSign_word _ h, ofBitVec_unpackSign_word _ h]
    cases negative <;> rfl
  simp only [unpack, hfraction, hexponent, hsign]
  split
  · split <;> rfl
  · split
    · split <;> rfl
    · rfl

theorem neg_ofMagnitude (negative : Bool) {w : Nat} (h : w ≤ infinity) :
    -ofMagnitude negative w = ofMagnitude (!negative) w := by
  have hneg : bits (-ofMagnitude negative w) =
      pack Format.binary64 (unpack Format.binary64 (bits (ofMagnitude negative w))).neg := rfl
  apply eq_of_bits
  rw [hneg, bits_ofMagnitude negative h, ← unpack_word_not negative (lt_signBit_of_le_infinity h)]
  exact (bits_ofBits (word (!negative) w)).symm

theorem divNearest_mul (n : Nat) {b : Nat} (h : 0 < b) : divNearest (n * b) b = n := by
  have hlt : compare (2 * (n * b % b)) b = .lt := by
    rw [Nat.mul_mod_left, Nat.compare_eq_lt]
    exact h
  simp only [divNearest, hlt]
  exact Nat.mul_div_cancel n h

theorem nearest_of_steps {a b n k : Nat} (hb : 0 < b) (hunits : a * 2 ^ unitBits = n * 2 ^ k * b)
    (hk : (n * 2 ^ k).log2 - fractionBits = k) :
    nearest a b = min (k * 2 ^ fractionBits + n) infinity := by
  have hquotient : a * 2 ^ unitBits / b = n * 2 ^ k := by
    rw [hunits, Nat.mul_div_cancel _ hb]
  have hsteps : a * 2 ^ unitBits = n * (b * 2 ^ k) := by
    rw [hunits, Nat.mul_assoc, Nat.mul_comm b]
  have hstep : 0 < b * 2 ^ k := Nat.mul_pos hb (Nat.two_pow_pos k)
  simp only [nearest, Nat.pow_eq]
  rw [hquotient, hk, hsteps, divNearest_mul n hstep]

theorem log2_sub_fractionBits {n : Nat} (h : n < 2 ^ fractionBits) :
    n.log2 - fractionBits = 0 := by
  by_cases hn : n = 0
  · subst hn
    rfl
  · have hlog := (Nat.log2_lt hn).2 h
    omega

theorem log2_normal {n : Nat} (h : n < 2 ^ fractionBits) (k : Nat) :
    ((2 ^ fractionBits + n) * 2 ^ k).log2 = fractionBits + k := by
  have hpos : 0 < 2 ^ k := Nat.two_pow_pos k
  have htwice : 2 ^ (fractionBits + k + 1) = (2 ^ fractionBits + 2 ^ fractionBits) * 2 ^ k := by
    rw [Nat.pow_succ, Nat.pow_add, Nat.mul_two, Nat.add_mul]
  rw [Nat.log2_eq_iff, htwice, Nat.pow_add]
  · constructor
    · exact Nat.mul_le_mul_right _ (Nat.le_add_right _ _)
    · exact Nat.mul_lt_mul_of_pos_right (Nat.add_lt_add_left h _) hpos
  · have hsignificand : 0 < 2 ^ fractionBits + n := Nat.add_pos_left (Nat.two_pow_pos _) n
    exact Nat.ne_of_gt (Nat.mul_pos hsignificand hpos)

theorem nearest_units {a b w : Nat} (hw : w < infinity) (hb : 0 < b)
    (h : a * 2 ^ unitBits = units w * b) : nearest a b = w := by
  have hfraction : w % 2 ^ fractionBits < 2 ^ fractionBits := Nat.mod_lt _ (Nat.two_pow_pos _)
  have hw' := Nat.div_add_mod' w (2 ^ fractionBits)
  simp only [units, Nat.pow_eq] at h
  split at h
  · next hzero =>
    rw [hzero, Nat.zero_mul, Nat.zero_add] at hw'
    rw [nearest_of_steps hb (n := w % 2 ^ fractionBits) (k := 0), hw', Nat.zero_mul, Nat.zero_add]
    · exact Nat.min_eq_left (Nat.le_of_lt hw)
    · rwa [Nat.pow_zero, Nat.mul_one]
    · rw [Nat.pow_zero, Nat.mul_one]
      exact log2_sub_fractionBits hfraction
  · next hzero =>
    obtain ⟨k, hk⟩ := Nat.exists_eq_succ_of_ne_zero hzero
    rw [hk, Nat.succ_sub_one] at h
    rw [nearest_of_steps hb h]
    · rw [← Nat.add_assoc, ← Nat.succ_mul, ← hk, hw']
      exact Nat.min_eq_left (Nat.le_of_lt hw)
    · rw [log2_normal hfraction k, Nat.add_sub_cancel_left]

end Formula.Binary64
