import Mathlib
import Formula.Proofs.Binary64.Order

namespace Formula.Binary64

open Float.Model (Format UnpackedFloat)
open Float.Model.UnpackedFloat

/-- The exponent of a finite magnitude. The least one is that of the subnormal magnitudes too. -/
def exponent (w : Nat) : Nat := max (w / 2 ^ 52) 1

def significand (w : Nat) : Nat := if w / 2 ^ 52 = 0 then w % 2 ^ 52 else 2 ^ 52 + w % 2 ^ 52

theorem units_eq (w : Nat) : units w = significand w * 2 ^ (exponent w - 1) := by
  by_cases hzero : w / 2 ^ 52 = 0
  · have hunits : units w = w % 2 ^ 52 := if_pos hzero
    rw [hunits, significand, if_pos hzero, exponent, hzero, Nat.zero_max, Nat.sub_self,
      Nat.pow_zero, Nat.mul_one]
  · have hunits : units w = (2 ^ 52 + w % 2 ^ 52) * 2 ^ (w / 2 ^ 52 - 1) := if_neg hzero
    rw [hunits, significand, if_neg hzero, exponent, Nat.max_eq_left (Nat.pos_of_ne_zero hzero)]

theorem significand_succ (w : Nat) :
    (exponent (w + 1) = exponent w ∧ significand (w + 1) = significand w + 1) ∨
      exponent (w + 1) = exponent w + 1 ∧ 2 * significand (w + 1) = significand w + 1 := by
  simp only [exponent, significand]
  split <;> split <;> omega

theorem units_strictMono : StrictMono units := by
  apply strictMono_nat_of_lt_succ
  intro w
  have hpos : 0 < 2 ^ (exponent w - 1) := Nat.two_pow_pos _
  have hexponent : 1 ≤ exponent w := le_max_right _ _
  rw [units_eq, units_eq]
  obtain ⟨he, hs⟩ | ⟨he, hs⟩ := significand_succ w
  · rw [he, hs]
    exact Nat.mul_lt_mul_of_pos_right (Nat.lt_succ_self _) hpos
  · calc
      significand w * 2 ^ (exponent w - 1) < (significand w + 1) * 2 ^ (exponent w - 1) :=
        Nat.mul_lt_mul_of_pos_right (Nat.lt_succ_self _) hpos
      _ = significand (w + 1) * 2 ^ (exponent w - 1 + 1) := by rw [← hs, Nat.pow_succ]; ring
      _ = significand (w + 1) * 2 ^ (exponent (w + 1) - 1) := by
        rw [he, Nat.sub_add_cancel hexponent, Nat.add_sub_cancel]

theorem units_zero : units 0 = 0 := by decide

theorem units_pos {w : Nat} (h : 0 < w) : 0 < units w := by
  rw [← units_zero]
  exact units_strictMono h

/-- Magnitudes are in the order of their exponents, and then in that of their significands. -/
theorem compare_exponent_significand (v w : Nat) :
    (compare (exponent v) (exponent w)).then (compare (significand v) (significand w)) =
      compare v w := by
  have hlt : ∀ {v w : Nat}, v < w →
      exponent v < exponent w ∨ exponent v = exponent w ∧ significand v < significand w := by
    intro v w h
    simp only [exponent, significand]
    split <;> split <;> omega
  obtain h | rfl | h := lt_trichotomy v w
  · rw [Nat.compare_eq_lt.2 h]
    obtain he | ⟨he, hs⟩ := hlt h
    · rw [Nat.compare_eq_lt.2 he]
      rfl
    · rw [Nat.compare_eq_eq.2 he, Nat.compare_eq_lt.2 hs]
      rfl
  · simp
  · rw [Nat.compare_eq_gt.2 h]
    obtain he | ⟨he, hs⟩ := hlt h
    · rw [Nat.compare_eq_gt.2 he]
      rfl
    · rw [Nat.compare_eq_eq.2 he.symm, Nat.compare_eq_gt.2 hs]
      rfl

def sign (negative : Bool) : Sign := if negative then .negative else .positive

theorem toNat_append {m n : Nat} (b : BitVec m) (c : BitVec n) :
    (b ++ c).toNat = b.toNat * 2 ^ n + c.toNat := by
  rw [BitVec.toNat_append, ← Nat.shiftLeft_add_eq_or_of_lt c.isLt, Nat.shiftLeft_eq]

theorem exists_finite_eq {s : Sign} {m m' : Nat} {e e' : Int} (hpos : 0 < m) (hm : m = m')
    (he : e = e') : ∃ hpos', UnpackedFloat.finite s m e hpos = .finite s m' e' hpos' := by
  subst hm he
  exact ⟨hpos, rfl⟩

theorem unpack_word (negative : Bool) {w : Nat} (hpos : 0 < w) (hw : w < infinity) :
    ∃ hm, unpack Format.binary64 (word negative w) =
      .finite (sign negative) (significand w) (exponent w - 1075) hm := by
  have hbit := lt_signBit_of_le_infinity (Nat.le_of_lt hw)
  have hinfinity : infinity = 2047 * 2 ^ 52 := rfl
  have hbias : Format.binary64.exponentBias = 1023 := rfl
  have hsign : Sign.ofBitVec (unpackSign (word negative w)) = sign negative :=
    ofBitVec_unpackSign_word negative hbit
  have hfraction := toNat_unpackMantissa_word negative hbit
  have hexponent := toNat_unpackExponent_word negative hbit
  have hlast : unpackExponent (word negative w) ≠ -1#11 := by
    rw [ne_eq, ← BitVec.toNat_inj, hexponent]
    change w / 2 ^ 52 ≠ 2047
    omega
  simp only [unpack, hlast, if_false, hsign]
  by_cases hzero : w / 2 ^ 52 = 0
  · have hfirst : unpackExponent (word negative w) = 0#11 := by
      rw [← BitVec.toNat_inj, hexponent, hzero]
      rfl
    have hmantissa : unpackMantissa (word negative w) ≠ 0#52 := by
      rw [ne_eq, ← BitVec.toNat_inj, hfraction]
      change w % 2 ^ 52 ≠ 0
      omega
    simp only [hfirst, hmantissa, if_true, dif_neg, not_false_eq_true]
    apply exists_finite_eq
    · rw [hfraction, significand, if_pos hzero]
    · rw [hbias, exponent, hzero]
      rfl
  · have hfirst : unpackExponent (word negative w) ≠ 0#11 := by
      rw [ne_eq, ← BitVec.toNat_inj, hexponent]
      exact hzero
    have hsignificand : (1#1 ++ unpackMantissa (word negative w)).toNat = 2 ^ 52 + w % 2 ^ 52 := by
      rw [toNat_append, hfraction]
      rfl
    simp only [hfirst, if_false]
    apply exists_finite_eq
    · rw [hsignificand, significand, if_neg hzero]
    · rw [hexponent, hbias, exponent]
      omega

theorem unpack_word_zero (negative : Bool) :
    unpack Format.binary64 (word negative 0) = .zero (sign negative) := by
  cases negative <;> rfl

theorem unpack_word_infinity (negative : Bool) :
    unpack Format.binary64 (word negative infinity) = .infinity (sign negative) := by
  cases negative <;> rfl

theorem compare_units (v w : Nat) : compare (units v : ℤ) (units w) = compare v w := by
  rw [compare_natCast]
  simpa only [cmp_eq_compare] using units_strictMono.cmp_map_eq v w

theorem compare_exponents (v w : Nat) :
    compare (exponent v - 1075 : ℤ) (exponent w - 1075) = compare (exponent v) (exponent w) := by
  have hmono : StrictMono fun e : Nat => (e - 1075 : ℤ) := by
    intro e e' h
    dsimp only
    omega
  simpa only [cmp_eq_compare] using hmono.cmp_map_eq (exponent v) (exponent w)

def signed (negative : Bool) (w : Nat) : ℤ := if negative then -units w else units w

@[simp] theorem signed_false (w : Nat) : signed false w = units w := rfl

@[simp] theorem signed_true (w : Nat) : signed true w = -units w := rfl

@[simp] theorem signed_zero (negative : Bool) : signed negative 0 = 0 := by
  cases negative <;> simp [units_zero]

theorem compare_unpack_word (a b : Bool) {v w : Nat} (hv : v < infinity) (hw : w < infinity) :
    (unpack Format.binary64 (word a v)).compare (unpack Format.binary64 (word b w)) =
      some (compare (signed a v) (signed b w)) := by
  obtain rfl | hvpos := Nat.eq_zero_or_pos v <;> obtain rfl | hwpos := Nat.eq_zero_or_pos w
  · rw [unpack_word_zero, unpack_word_zero, signed_zero, signed_zero]
    rfl
  · obtain ⟨hm, hy⟩ := unpack_word b hwpos hw
    have hunits := units_pos hwpos
    rw [unpack_word_zero, hy]
    cases b
    · exact congrArg some (compare_lt_iff_lt.2 (by simpa using hunits)).symm
    · exact congrArg some (compare_gt_iff_gt.2 (by simpa using hunits)).symm
  · obtain ⟨hm, hx⟩ := unpack_word a hvpos hv
    have hunits := units_pos hvpos
    rw [unpack_word_zero, hx]
    cases a
    · exact congrArg some (compare_gt_iff_gt.2 (by simpa using hunits)).symm
    · exact congrArg some (compare_lt_iff_lt.2 (by simpa using hunits)).symm
  · -- only for two doubles of one sign do exponents and significands have to be compared
    obtain ⟨hm, hx⟩ := unpack_word a hvpos hv
    obtain ⟨hm', hy⟩ := unpack_word b hwpos hw
    have hplaces := compare_exponent_significand v w
    have hunits := units_pos hvpos
    have hunits' := units_pos hwpos
    rw [← compare_exponents] at hplaces
    rw [hx, hy]
    cases a <;> cases b
    · exact congrArg some (hplaces.trans (compare_units v w).symm)
    · exact congrArg some (compare_gt_iff_gt.2 (by rw [signed_false, signed_true]; omega)).symm
    · exact congrArg some (compare_lt_iff_lt.2 (by rw [signed_false, signed_true]; omega)).symm
    · refine congrArg some ?_
      rw [hplaces, signed_true, signed_true, compare_neg_neg, compare_units]

/-- The number that a finite double is. -/
def value? (x : Float) : Option ℚ :=
  if magnitude x < infinity then some (signed (isNegative x) (magnitude x) / 2 ^ unitBits) else none

theorem exists_of_value?_eq_some {x : Float} {a : ℚ} (h : value? x = some a) :
    magnitude x < infinity ∧ a = signed (isNegative x) (magnitude x) / 2 ^ unitBits := by
  rw [value?, Option.ite_none_right_eq_some, Option.some.injEq] at h
  exact ⟨h.1, h.2.symm⟩

theorem unpack_toModel {x : Float} (h : magnitude x ≤ infinity) :
    x.toModel.unpack = unpack Format.binary64 (word (isNegative x) (magnitude x)) := by
  rw [← bits_ofMagnitude _ h, ofMagnitude_magnitude]
  rfl

theorem compare_of_value? {x y : Float} {a b : ℚ} (ha : value? x = some a)
    (hb : value? y = some b) : x.toModel.unpack.compare y.toModel.unpack = some (compare a b) := by
  obtain ⟨hx, rfl⟩ := exists_of_value?_eq_some ha
  obtain ⟨hy, rfl⟩ := exists_of_value?_eq_some hb
  have hmono : StrictMono fun z : ℤ => (z : ℚ) / 2 ^ unitBits := by
    intro z z' h
    exact div_lt_div_of_pos_right (Int.cast_lt.2 h) (by positivity)
  rw [unpack_toModel hx.le, unpack_toModel hy.le, compare_unpack_word _ _ hx hy]
  apply congrArg some
  simpa only [cmp_eq_compare] using (hmono.cmp_map_eq _ _).symm

theorem lt_iff_of_value? {x y : Float} {a b : ℚ} (ha : value? x = some a) (hb : value? y = some b) :
    x < y ↔ a < b := by
  have h : x < y ↔ x.toModel.unpack.lt y.toModel.unpack = true := decide_eq_true_iff
  rw [h, UnpackedFloat.lt, beq_iff_eq, compare_of_value? ha hb, Option.some.injEq,
    compare_lt_iff_lt]

theorem le_iff_of_value? {x y : Float} {a b : ℚ} (ha : value? x = some a) (hb : value? y = some b) :
    x ≤ y ↔ a ≤ b := by
  have h : x ≤ y ↔ x.toModel.unpack.le y.toModel.unpack = true := decide_eq_true_iff
  rw [h, UnpackedFloat.le, compare_of_value? ha hb, Option.any_some, Ordering.isLE_iff_ne_gt,
    ← ne_eq, compare_le_iff_le]

theorem unpack_eq_of_value? {x : Float} {a : ℚ} (h : value? x = some a) :
    x.toModel.unpack = .zero (sign (isNegative x)) ∨
      ∃ m e hm, x.toModel.unpack = .finite (sign (isNegative x)) m e hm := by
  obtain ⟨hx, -⟩ := exists_of_value?_eq_some h
  rw [unpack_toModel hx.le]
  obtain hzero | hpos := Nat.eq_zero_or_pos (magnitude x)
  · left
    rw [hzero, unpack_word_zero]
  · right
    obtain ⟨hm, hfinite⟩ := unpack_word (isNegative x) hpos hx
    exact ⟨_, _, hm, hfinite⟩

theorem value?_eq_none_iff_le {x : Float} : value? x = none ↔ infinity ≤ magnitude x := by
  rw [value?]
  split <;> simp_all

theorem value?_eq_none_iff {x : Float} :
    value? x = none ↔ x.isNaN = true ∨ x.isInf = true := by
  constructor
  · intro h
    obtain hlt | heq := Nat.lt_or_eq_of_le (value?_eq_none_iff_le.1 h)
    · left
      rw [eq_nan_of_infinity_lt hlt]
      rfl
    · right
      rw [Float.isInf, Float.Model.isInf, unpack_toModel (Nat.le_of_eq heq.symm), ← heq,
        unpack_word_infinity]
      rfl
  · intro h
    cases hvalue : value? x with
    | none => rfl
    | some a =>
      rw [Float.isNaN, Float.Model.isNaN, Float.isInf, Float.Model.isInf] at h
      obtain hu | ⟨m, e, hm, hu⟩ := unpack_eq_of_value? hvalue
      · rw [hu] at h
        simp [UnpackedFloat.isNaN, UnpackedFloat.isInf] at h
      · rw [hu] at h
        simp [UnpackedFloat.isNaN, UnpackedFloat.isInf] at h

theorem value?_eq_intCast_iff {x : Float} {z : ℤ} : value? x = some (z : ℚ) ↔
    magnitude x < infinity ∧ signed (isNegative x) (magnitude x) = z * 2 ^ unitBits := by
  have hone : (2 : ℚ) ^ unitBits ≠ 0 := by positivity
  rw [value?, Option.ite_none_right_eq_some, Option.some.injEq, div_eq_iff hone]
  exact and_congr_right fun _ => by exact_mod_cast Iff.rfl

theorem value?_eq_natCast_iff {x : Float} {n : Nat} : value? x = some (n : ℚ) ↔
    magnitude x < infinity ∧ signed (isNegative x) (magnitude x) = (n * 2 ^ unitBits : ℕ) := by
  rw [← Int.cast_natCast, value?_eq_intCast_iff, Nat.cast_mul, Nat.cast_pow, Nat.cast_ofNat]

end Formula.Binary64
