import Mathlib
import Formula.Proofs.Binary64.Rounding

namespace Formula.Binary64

open Float.Model (Format UnpackedFloat)
open Float.Model.UnpackedFloat

theorem ofNat_eq_of_lt {n : Nat} (h : n < 2 ^ 53) :
    Float.ofNat n = n.toUInt64.toFloat * 1.0 := by
  change Float.ofScientific n false 0 = n.toUInt64.toFloat * 1.0
  rw [Float.ofScientific, dif_pos ⟨h, by decide⟩]
  rfl

theorem ofNat_eq_of_not_lt {n : Nat} (h : ¬ n < 2 ^ 53) :
    Float.ofNat n = Float.ofModel (Float.Model.ofScientific n 0) := by
  change Float.ofScientific n false 0 = _
  rw [Float.ofScientific, dif_neg (fun h' => h h'.1)]
  rfl

/-- The places by which a natural number is shifted to the left to get all bits of a significand. -/
def room (n : Nat) : Nat := 52 - n.log2

/-- Is the natural number, with all bits of a significand. -/
def IsExact (u : UnpackedFloat) (n : Nat) : Prop :=
  ∃ hpos, u = .finite .positive (n * 2 ^ room n) (-room n) hpos

section

variable {n : Nat} (hpos : 0 < n) (hlt : n < 2 ^ 53)

include hpos hlt

theorem log2_mul_room : (n * 2 ^ room n).log2 = 52 := by
  have hlog := (Nat.log2_lt (Nat.ne_of_gt hpos)).2 hlt
  rw [log2_mul_two_pow hpos, room]
  omega

theorem isExact_round {j : Nat} (hj : room n ≤ j) :
    IsExact (unpack Format.binary64 (pack Format.binary64
      (roundWithAccuracy Format.binary64 .positive (n * 2 ^ j) (-j) .exact))) n := by
  have hlog := log2_mul_room hpos hlt
  have hroom : room n ≤ 52 := Nat.sub_le 52 _
  have hmul : 0 < n * 2 ^ room n := Nat.mul_pos hpos (Nat.two_pow_pos _)
  obtain ⟨s, rfl⟩ := Nat.exists_eq_add_of_le hj
  have hexponent : (-(room n + s : ℕ) : ℤ) + s = -room n := by omega
  refine ⟨hmul, ?_⟩
  rw [Nat.pow_add, ← Nat.mul_assoc, roundWithAccuracy_exact hlog hmul s (by omega)]
  simp only [hexponent]
  exact unpack_pack_exact hlog hmul (by omega) (by omega)

theorem isExact_normalize (j : Nat) :
    IsExact (unpack Format.binary64 (pack Format.binary64
      (UnpackedFloat.normalize Format.binary64 ((n * 2 ^ j : ℕ) : ℤ) (-j) .positive))) n := by
  have hmul : 0 < n * 2 ^ j := Nat.mul_pos hpos (Nat.two_pow_pos j)
  have hcompare : compare ((n * 2 ^ j : ℕ) : ℤ) 0 = .gt := compare_gt_iff_gt.2 (by omega)
  have hroom : room n = 52 - n.log2 := rfl
  have hplaces : (-(j : ℤ) - max (((n * 2 ^ j).log2 : ℤ) + -j - 52) (-1074)).toNat =
      room n - j := by
    rw [log2_mul_two_pow hpos]
    omega
  have hexponent : (-(j : ℤ) - (room n - j : ℕ)) = -(j + (room n - j) : ℕ) := by omega
  rw [UnpackedFloat.normalize, hcompare]
  simp only [Int.toNat_natCast, UnpackedFloat.round, decreaseExponent, targetExponent_eq, hplaces,
    Nat.shiftLeft_eq, hexponent]
  rw [Nat.mul_assoc, ← Nat.pow_add]
  exact isExact_round hpos hlt (by omega)

theorem isExact_toFloat : IsExact n.toUInt64.toFloat.toModel.unpack n := by
  have hunpack : n.toUInt64.toFloat.toModel.unpack = unpack Format.binary64 (pack Format.binary64
      (UnpackedFloat.normalize Format.binary64 n.toUInt64.toNat 0 .positive)) := rfl
  have h := isExact_normalize hpos hlt 0
  rw [Nat.pow_zero, Nat.mul_one, Int.natCast_zero, Int.neg_zero] at h
  rwa [hunpack, UInt64.toNat_ofNat', Nat.mod_eq_of_lt (by omega)]

theorem isExact_mul_one {x : Float} (h : IsExact x.toModel.unpack n) :
    IsExact (x * 1.0).toModel.unpack n := by
  obtain ⟨hm, hx⟩ := h
  have hexponent : (-(room n : ℤ) + -52) = -(room n + 52 : ℕ) := by omega
  rw [unpack_mul, unpack_one, hx, mul_finite_positive, Nat.mul_assoc, ← Nat.pow_add, hexponent]
  exact isExact_round hpos hlt (Nat.le_add_right _ 52)

theorem isExact_ofNat : IsExact (Float.ofNat n).toModel.unpack n := by
  rw [ofNat_eq_of_lt hlt]
  exact isExact_mul_one hpos hlt (isExact_toFloat hpos hlt)

end

theorem isExact_add_one {x : Float} {n : Nat} (h : IsExact x.toModel.unpack n)
    (hlt : n + 1 < 2 ^ 53) : IsExact (x + 1.0).toModel.unpack (n + 1) := by
  have hroom : room n ≤ 52 := Nat.sub_le 52 _
  have hmin : min (-(room n : ℤ)) (-52) = -(52 : ℕ) := by omega
  have hplaces : (-(room n : ℤ) - -(52 : ℕ)).toNat = 52 - room n := by omega
  obtain ⟨hm, hx⟩ := h
  have hsum : ((n * 2 ^ room n) <<< (52 - room n) : ℕ) + ((2 ^ 52) <<< 0 : ℕ) =
      (((n + 1) * 2 ^ 52 : ℕ) : ℤ) := by
    rw [Nat.shiftLeft_eq, Nat.mul_assoc, ← Nat.pow_add, Nat.add_sub_cancel' hroom]
    omega
  rw [unpack_add, unpack_one, hx, add_finite_positive, hmin, hplaces]
  have h := isExact_normalize (Nat.succ_pos n) hlt 52
  rw [← hsum] at h
  exact h

theorem IsExact.eq {x y : Float} {n : Nat} (hx : IsExact x.toModel.unpack n)
    (hy : IsExact y.toModel.unpack n) : x = y := by
  obtain ⟨_, hx⟩ := hx
  obtain ⟨_, hy⟩ := hy
  have hunpack : unpack Format.binary64 (bits x) = unpack Format.binary64 (bits y) :=
    hx.trans hy.symm
  apply eq_of_bits
  rw [← pack_unpack_of_valid (valid_bits x), hunpack, pack_unpack_of_valid (valid_bits y)]

theorem IsExact.value? {x : Float} {n : Nat} (h : IsExact x.toModel.unpack n) :
    value? x = some (n : ℚ) := by
  obtain ⟨_, hx⟩ := h
  have hroom : room n ≤ 52 := Nat.sub_le 52 _
  cases hvalue : Binary64.value? x with
  | none =>
    have h := value?_eq_none_iff.1 hvalue
    rw [Float.isNaN, Float.Model.isNaN, Float.isInf, Float.Model.isInf, hx] at h
    simp [UnpackedFloat.isNaN, UnpackedFloat.isInf] at h
  | some a =>
    obtain ⟨hlt, -⟩ := exists_of_value?_eq_some hvalue
    rw [← hvalue, value?_eq_natCast_iff]
    refine ⟨hlt, ?_⟩
    rw [unpack_toModel hlt.le] at hx
    obtain hzero | hpos := Nat.eq_zero_or_pos (magnitude x)
    · rw [hzero, unpack_word_zero] at hx
      cases hx
    · obtain ⟨hm, hfinite⟩ := unpack_word (isNegative x) hpos hlt
      rw [hfinite] at hx
      injection hx with hsign hsignificand hexponent
      -- the zeros behind the number and the exponent give as many places as a one has
      have hplaces : room n + (exponent (magnitude x) - 1) = unitBits := by
        rw [unitBits]
        omega
      have hunits : units (magnitude x) = n * 2 ^ unitBits := by
        rw [units_eq, hsignificand, Nat.mul_assoc, ← Nat.pow_add, hplaces]
      cases hnegative : isNegative x with
      | false => rw [signed_false, hunits]
      | true =>
        rw [hnegative] at hsign
        cases hsign

theorem value?_ofNat {n : Nat} (hpos : 0 < n) (hlt : n < 2 ^ 53) :
    value? (Float.ofNat n) = some (n : ℚ) := (isExact_ofNat hpos hlt).value?

theorem ofNat_add_one {n : Nat} (hpos : 0 < n) (hlt : n + 1 < 2 ^ 53) :
    Float.ofNat n + 1.0 = Float.ofNat (n + 1) := by
  have hexact := isExact_ofNat hpos (Nat.lt_of_succ_lt hlt)
  exact (isExact_add_one hexact hlt).eq (isExact_ofNat (Nat.succ_pos n) hlt)

theorem IsExact.isPositive {u : UnpackedFloat} {n : Nat} (h : IsExact u n) : IsPositive u := by
  obtain ⟨hpos, rfl⟩ := h
  have hroom : room n ≤ 52 := Nat.sub_le 52 _
  exact Or.inr ⟨_, _, hpos, rfl, by omega⟩

theorem isPositive_ofNat {n : Nat} (h : 0 < n) : IsPositive (Float.ofNat n).toModel.unpack := by
  by_cases hn : n < 2 ^ 53
  · exact (isExact_ofNat h hn).isPositive
  · have hunpack : (Float.ofModel (Float.Model.ofScientific n 0)).toModel.unpack =
        unpack Format.binary64 (pack Format.binary64 (ofScientific Format.binary64 n 0)) := rfl
    have hbits : (2 : ℤ) ^ Format.binary64.exponentBits = 2048 := rfl
    rw [ofNat_eq_of_not_lt hn, hunpack, ofScientific, dif_neg (Nat.ne_of_gt h), hbits,
      if_neg (by decide), if_neg (by omega), if_pos (Int.le_refl 0), mul_finite_positive]
    apply isPositive_round
    · rw [Nat.shiftLeft_eq]
      exact Nat.mul_pos (Nat.mul_pos h (Nat.two_pow_pos _)) (Nat.pow_pos (by decide))
    · have hprecision : Format.binary64.mantissaBits = 53 := rfl
      rw [hprecision]
      omega

theorem unpack_of_isFinite_eq_false {x : Float} (h : x.isFinite = false) :
    x.toModel.unpack = .notANumber ∨ ∃ s, x.toModel.unpack = .infinity s := by
  rw [Float.isFinite, Float.Model.isFinite] at h
  cases hu : x.toModel.unpack with
  | notANumber => exact Or.inl rfl
  | infinity s => exact Or.inr ⟨s, rfl⟩
  | zero s =>
    rw [hu] at h
    cases h
  | finite s m e hm =>
    rw [hu] at h
    cases h

theorem IsPositive.infinity_mul {u : UnpackedFloat} (h : IsPositive u) (s : Sign) :
    mul Format.binary64 (.infinity s) u = .infinity s := by
  obtain rfl | ⟨m, e, hm, rfl, -⟩ := h <;> cases s <;> rfl

theorem mul_ofNat_eq_self {x : Float} (hx : x.isFinite = false) {n : Nat} (hn : 0 < n) :
    x * Float.ofNat n = x := by
  have hmul : bits (x * Float.ofNat n) = pack Format.binary64
      (mul Format.binary64 x.toModel.unpack (Float.ofNat n).toModel.unpack) := rfl
  have hself : mul Format.binary64 x.toModel.unpack (Float.ofNat n).toModel.unpack =
      x.toModel.unpack := by
    obtain hu | ⟨s, hu⟩ := unpack_of_isFinite_eq_false hx
    · rw [hu]
      rfl
    · rw [hu]
      exact (isPositive_ofNat hn).infinity_mul s
  apply eq_of_bits
  rw [hmul, hself]
  exact pack_unpack_of_valid (valid_bits x)

end Formula.Binary64
