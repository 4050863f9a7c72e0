import Mathlib
import Formula.Proofs.Binary64.Value

namespace Formula.Binary64

open Float.Model (Format UnpackedFloat totalExponent)
open Float.Model.UnpackedFloat

/-- Above zero, and maybe infinite. No exponent is below the least one. -/
def IsPositive (u : UnpackedFloat) : Prop :=
  u = .infinity .positive ∨ ∃ m e hm, u = .finite .positive m e hm ∧ -1074 ≤ e

theorem mantissa_shiftRight (m : ExtendedMantissa) (k : Nat) :
    (m >>> k).mantissa = m.mantissa / 2 ^ k := by
  change (k.repeat ExtendedMantissa.shiftRightOne m).mantissa = m.mantissa / 2 ^ k
  induction k with
  | zero => exact (Nat.div_one _).symm
  | succ k ih =>
    rw [Nat.pow_succ, ← Nat.div_div_eq_div_mul, ← ih]
    rfl

theorem mantissa_le_roundedMantissa (m : ExtendedMantissa) : m.mantissa ≤ m.roundedMantissa := by
  obtain ⟨n, _ | _, _ | _⟩ := m
  · exact Nat.le_refl n
  · exact Nat.le_refl n
  · exact Nat.le_add_right n (n % 2)
  · exact Nat.le_succ n

/-- The places by which a significand is shifted to the right before it is rounded. -/
def shift (m : Nat) (e : Int) : Nat :=
  (Format.binary64.targetExponent (totalExponent m e) - e).toNat

theorem shiftToTargetExponent_exact (m : Nat) (e : Int) :
    (shiftToTargetExponent Format.binary64 m e .exact).1.mantissa = m / 2 ^ shift m e ∧
      (shiftToTargetExponent Format.binary64 m e .exact).2 = e + shift m e :=
  ⟨mantissa_shiftRight _ _, rfl⟩

theorem targetExponent_eq (m : Nat) (e : Int) :
    Format.binary64.targetExponent (totalExponent m e) = max (m.log2 + e - 52) (-1074) := by
  simp only [Format.targetExponent, totalExponent, Format.mantissaBits, Format.minExponent]
  norm_num
  omega

theorem shift_bounds (m : Nat) (e : Int) :
    m / 2 ^ shift m e < 2 ^ 53 ∧ -1074 ≤ e + shift m e := by
  have htarget := targetExponent_eq m e
  have hshift : shift m e = (max (m.log2 + e - 52) (-1074) - e).toNat := by
    rw [shift, htarget]
  constructor
  · rw [Nat.div_lt_iff_lt_mul (Nat.two_pow_pos _), ← Nat.pow_add]
    calc
      m < 2 ^ (m.log2 + 1) := Nat.lt_log2_self
      _ ≤ 2 ^ (53 + shift m e) := Nat.pow_le_pow_right (by decide) (by omega)
  · omega

/-- What is not below the least positive double does not vanish. -/
theorem div_shift_pos {m : Nat} {e : Int} (hm : 0 < m) (h : -1074 ≤ m.log2 + e) :
    0 < m / 2 ^ shift m e := by
  have hshift : shift m e ≤ m.log2 := by
    rw [shift, targetExponent_eq]
    omega
  apply Nat.div_pos _ (Nat.two_pow_pos _)
  calc
    2 ^ shift m e ≤ 2 ^ m.log2 := Nat.pow_le_pow_right (by decide) hshift
    _ ≤ m := Nat.log2_self_le (Nat.ne_of_gt hm)

theorem exists_roundWithAccuracy_eq {m : Nat} {e : Int} (hm : 0 < m) (h : -1074 ≤ m.log2 + e) :
    ∃ m' e' hm', roundWithAccuracy Format.binary64 .positive m e .exact =
      .finite .positive m' e' hm' ∧ m' < 2 ^ 53 ∧ -1074 ≤ e' := by
  -- the significand is shifted, rounded, and shifted again where rounding has made it too long
  obtain ⟨hfirst, hexponent⟩ := shiftToTargetExponent_exact m e
  cases hem : shiftToTargetExponent Format.binary64 m e .exact with
  | mk em e₁ =>
    rw [hem] at hfirst hexponent
    dsimp only at hfirst hexponent
    have hrounded : 0 < em.roundedMantissa := by
      have hpos := div_shift_pos hm h
      rw [← hfirst] at hpos
      exact Nat.lt_of_lt_of_le hpos (mantissa_le_roundedMantissa em)
    have he₁ : -1074 ≤ e₁ := by
      rw [hexponent]
      exact (shift_bounds m e).2
    obtain ⟨hsecond, hexponent'⟩ := shiftToTargetExponent_exact em.roundedMantissa e₁
    obtain ⟨hlt, hle⟩ := shift_bounds em.roundedMantissa e₁
    have hpos := div_shift_pos (e := e₁) hrounded (by omega)
    rw [← hsecond] at hpos hlt
    rw [← hexponent'] at hle
    refine ⟨_, _, hpos, ?_, hlt, hle⟩
    rw [roundWithAccuracy, hem]
    exact dif_neg (Nat.ne_of_gt hpos)

theorem packComponents_positive (e : BitVec 11) (m : BitVec 52) :
    packComponents Format.binary64 .positive e m = word false (e.toNat * 2 ^ 52 + m.toNat) := by
  have he := e.isLt
  have hm := m.isLt
  have hbit : signBit = 2 ^ 63 := rfl
  apply BitVec.eq_of_toNat_eq
  rw [toNat_word false (by omega)]
  change (Sign.positive.toBitVec ++ e ++ m).toNat = e.toNat * 2 ^ 52 + m.toNat
  rw [toNat_append, toNat_append, Sign.toBitVec, BitVec.toNat_ofNat]
  omega

/-- The word of what is above zero. A short significand has the least exponent, and the first bit of
a long one goes up into the exponent. -/
theorem pack_finite_positive {m : Nat} {e : Int} (hm : 0 < m) (hlt : m < 2 ^ 53) (he : -1074 ≤ e) :
    (971 < e ∧ pack Format.binary64 (.finite .positive m e hm) = word false infinity) ∨
      ∃ w, 0 < w ∧ w < infinity ∧ pack Format.binary64 (.finite .positive m e hm) = word false w ∧
        (m.log2 = 52 → w = (e + 1074).toNat * 2 ^ 52 + m) := by
  have hbias : Format.binary64.exponentBias = 1023 := rfl
  have hinfinity : infinity = 2047 * 2 ^ 52 := rfl
  simp only [pack]
  split
  · next hexponent =>
    rw [hbias] at hexponent
    change 2 ^ 11 ≤ (e + 1023 + 52).toNat + 1 at hexponent
    exact Or.inl ⟨by omega, rfl⟩
  · next hexponent =>
    rw [hbias] at hexponent
    change ¬ 2 ^ 11 ≤ (e + 1023 + 52).toNat + 1 at hexponent
    right
    split
    · next hbits =>
      rw [packComponents_positive, BitVec.toNat_ofNat, BitVec.toNat_ofNat, hbias]
      change m.log2 + 1 = 53 at hbits
      obtain ⟨hle, -⟩ := (Nat.log2_eq_iff (Nat.ne_of_gt hm)).1 (Nat.succ.inj hbits)
      have hword : (e + 1023 + 52).toNat % 2 ^ 11 * 2 ^ 52 + m % 2 ^ 52 =
          (e + 1074).toNat * 2 ^ 52 + m := by omega
      exact ⟨_, by omega, by omega, congrArg (word false) hword, fun _ => rfl⟩
    · next hbits =>
      rw [packComponents_positive, BitVec.toNat_ofNat, BitVec.toNat_ofNat]
      change m.log2 + 1 ≠ 53 at hbits
      have hlog := (Nat.log2_lt (Nat.ne_of_gt hm)).2 hlt
      have hshort : m < 2 ^ 52 := (Nat.log2_lt (Nat.ne_of_gt hm)).1 (by omega)
      have hword : 0 % 2 ^ 11 * 2 ^ 52 + m % 2 ^ 52 = m := by omega
      exact ⟨m, hm, by omega, congrArg (word false) hword, fun hlog => by omega⟩

theorem isPositive_unpack_pack {m : Nat} {e : Int} (hm : 0 < m) (hlt : m < 2 ^ 53)
    (he : -1074 ≤ e) :
    IsPositive (unpack Format.binary64 (pack Format.binary64 (.finite .positive m e hm))) := by
  obtain ⟨-, hpack⟩ | ⟨w, hpos, hw, hpack, -⟩ := pack_finite_positive hm hlt he
  · rw [hpack, unpack_word_infinity]
    exact Or.inl rfl
  · obtain ⟨hm', hfinite⟩ := unpack_word false hpos hw
    have hexponent : 1 ≤ exponent w := le_max_right _ _
    rw [hpack]
    exact Or.inr ⟨_, _, hm', hfinite, by omega⟩

theorem isPositive_round {m : Nat} {e : Int} (hm : 0 < m) (h : -1074 ≤ m.log2 + e) :
    IsPositive (unpack Format.binary64
      (pack Format.binary64 (roundWithAccuracy Format.binary64 .positive m e .exact))) := by
  obtain ⟨m', e', hm', hround, hlt, hle⟩ := exists_roundWithAccuracy_eq hm h
  rw [hround]
  exact isPositive_unpack_pack hm' hlt hle

theorem log2_mul_two_pow {n : Nat} (hn : 0 < n) (j : Nat) : (n * 2 ^ j).log2 = n.log2 + j := by
  have hpos : n * 2 ^ j ≠ 0 := Nat.ne_of_gt (Nat.mul_pos hn (Nat.two_pow_pos j))
  rw [Nat.log2_eq_iff hpos, Nat.add_right_comm, Nat.pow_add, Nat.pow_add]
  constructor
  · exact Nat.mul_le_mul_right _ (Nat.log2_self_le (Nat.ne_of_gt hn))
  · exact Nat.mul_lt_mul_of_pos_right Nat.lt_log2_self (Nat.two_pow_pos j)

theorem isPositive_normalize {m : Nat} {e : Int} (hm : 0 < m) (he : -1074 ≤ e) :
    IsPositive (unpack Format.binary64
      (pack Format.binary64 (UnpackedFloat.normalize Format.binary64 m e .positive))) := by
  have hcompare : compare (m : ℤ) 0 = .gt := compare_gt_iff_gt.2 (by omega)
  rw [UnpackedFloat.normalize, hcompare]
  simp only [Int.toNat_natCast, UnpackedFloat.round, decreaseExponent, Nat.shiftLeft_eq]
  apply isPositive_round
  · exact Nat.mul_pos hm (Nat.two_pow_pos _)
  · rw [log2_mul_two_pow hm]
    omega

theorem mul_finite_positive {m m' : Nat} {e e' : Int} (hm : 0 < m) (hm' : 0 < m') :
    mul Format.binary64 (.finite .positive m e hm) (.finite .positive m' e' hm') =
      roundWithAccuracy Format.binary64 .positive (m * m') (e + e') .exact := rfl

theorem add_finite_positive {m m' : Nat} {e e' : Int} (hm : 0 < m) (hm' : 0 < m') :
    add Format.binary64 (.finite .positive m e hm) (.finite .positive m' e' hm') =
      UnpackedFloat.normalize Format.binary64
        ((m <<< (e - min e e').toNat : ℕ) + (m' <<< (e' - min e e').toNat : ℕ)) (min e e')
        .positive := rfl

theorem unpack_mul (x y : Float) : (x * y).toModel.unpack = unpack Format.binary64
    (pack Format.binary64 (mul Format.binary64 x.toModel.unpack y.toModel.unpack)) := rfl

theorem unpack_add (x y : Float) : (x + y).toModel.unpack = unpack Format.binary64
    (pack Format.binary64 (add Format.binary64 x.toModel.unpack y.toModel.unpack)) := rfl

theorem unpack_one :
    (1.0 : Float).toModel.unpack = .finite .positive (2 ^ 52) (-52) (by decide) := rfl

theorem shiftRight_exact (n k : Nat) :
    ExtendedMantissa.mk (n * 2 ^ k) false false >>> k = ⟨n, false, false⟩ := by
  change k.repeat ExtendedMantissa.shiftRightOne ⟨n * 2 ^ k, false, false⟩ = ⟨n, false, false⟩
  induction k generalizing n with
  | zero => rw [Nat.pow_zero, Nat.mul_one, Nat.repeat]
  | succ k ih =>
    have hstep : n * 2 ^ (k + 1) = n * 2 * 2 ^ k := by rw [Nat.pow_succ]; ring
    rw [Nat.repeat, hstep, ih, ExtendedMantissa.shiftRightOne]
    simp

theorem shiftToTargetExponent_mul {m : Nat} (hm : m.log2 = 52) (hpos : 0 < m) (s : Nat) {e : Int}
    (he : -1074 ≤ e + s) :
    shiftToTargetExponent Format.binary64 (m * 2 ^ s) e .exact = (⟨m, false, false⟩, e + s) := by
  have hplaces :
      (Format.binary64.targetExponent (totalExponent (m * 2 ^ s) e) - e).toNat = s := by
    rw [targetExponent_eq, log2_mul_two_pow hpos]
    omega
  rw [shiftToTargetExponent, shiftToExponent, hplaces]
  exact Prod.ext (shiftRight_exact m s) rfl

theorem roundWithAccuracy_exact {m : Nat} (hm : m.log2 = 52) (hpos : 0 < m) (s : Nat) {e : Int}
    (he : -1074 ≤ e + s) :
    roundWithAccuracy Format.binary64 .positive (m * 2 ^ s) e .exact =
      .finite .positive m (e + s) hpos := by
  have hagain : shiftToTargetExponent Format.binary64
      (ExtendedMantissa.mk m false false).roundedMantissa (e + s) .exact =
        (⟨m, false, false⟩, e + s) := by
    have h := shiftToTargetExponent_mul hm hpos 0 (e := e + s) (by omega)
    rwa [Nat.pow_zero, Nat.mul_one, Int.natCast_zero, Int.add_zero] at h
  rw [roundWithAccuracy, shiftToTargetExponent_mul hm hpos s he]
  dsimp only
  rw [hagain]
  exact dif_neg (Nat.ne_of_gt hpos)

theorem significand_exponent_add {m : Nat} (hle : 2 ^ 52 ≤ m) (hlt : m < 2 ^ 53) (k : Nat) :
    significand (k * 2 ^ 52 + m) = m ∧ exponent (k * 2 ^ 52 + m) = k + 1 := by
  have hdiv : (k * 2 ^ 52 + m) / 2 ^ 52 = k + 1 := by omega
  have hmod : (k * 2 ^ 52 + m) % 2 ^ 52 = m - 2 ^ 52 := by omega
  rw [significand, exponent, hdiv, hmod, if_neg (Nat.succ_ne_zero k)]
  exact ⟨Nat.add_sub_cancel' hle, Nat.max_eq_left (Nat.le_add_left 1 k)⟩

/-- A significand with all its bits is not changed by its word. -/
theorem unpack_pack_exact {m : Nat} (hm : m.log2 = 52) (hpos : 0 < m) {e : Int} (he : -1074 ≤ e)
    (he' : e ≤ 971) :
    unpack Format.binary64 (pack Format.binary64 (.finite .positive m e hpos)) =
      .finite .positive m e hpos := by
  obtain ⟨hle, hlt⟩ := (Nat.log2_eq_iff (Nat.ne_of_gt hpos)).1 hm
  obtain ⟨hlarge, -⟩ | ⟨w, hwpos, hw, hpack, hword⟩ := pack_finite_positive hpos hlt he
  · exact absurd he' (Int.not_le.2 hlarge)
  · obtain ⟨hsignificand, hexponent⟩ := significand_exponent_add hle hlt (e + 1074).toNat
    obtain ⟨_, hfinite⟩ := unpack_word false hwpos hw
    rw [← hword hm] at hsignificand hexponent
    have he : (exponent w : ℤ) - 1075 = e := by omega
    obtain ⟨_, hsame⟩ := exists_finite_eq (s := .positive) (by omega) hsignificand he
    rw [hpack, hfinite]
    exact hsame

end Formula.Binary64
