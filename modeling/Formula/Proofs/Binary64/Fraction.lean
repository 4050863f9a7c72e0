import Mathlib
import Formula.Proofs.Binary64.Naturals

namespace Formula.Binary64

open Float.Model (Format UnpackedFloat)
open Float.Model.UnpackedFloat

theorem isZero_iff {x : Float} : isZero x = true ↔ ∃ s, x.toModel.unpack = .zero s := by
  have h : isZero x = (x.toModel.unpack.compare (.zero .positive) == some .eq) := rfl
  rw [h]
  rcases x.toModel.unpack with ⟨_ | _⟩ | _ | _ | ⟨_ | _, m, e, hm⟩ <;>
    simp [UnpackedFloat.compare]

theorem isZero_eq_false_iff {x : Float} :
    isZero x = false ↔ ∀ s, x.toModel.unpack ≠ .zero s := by
  rw [Bool.eq_false_iff, ne_eq, isZero_iff, not_exists]

theorem value?_zero : value? 0.0 = some ((0 : ℕ) : ℚ) :=
  value?_eq_natCast_iff.2 (by decide +kernel)

theorem value?_one : value? 1.0 = some ((1 : ℕ) : ℚ) :=
  value?_eq_natCast_iff.2 (by decide +kernel)

theorem isZero_iff_of_value? {x : Float} {a : ℚ} (h : value? x = some a) :
    isZero x = true ↔ a = 0 := by
  have hx : isZero x = (x.toModel.unpack.compare (0.0 : Float).toModel.unpack == some .eq) := rfl
  rw [hx, compare_of_value? h value?_zero, beq_iff_eq, Option.some.injEq, compare_eq_iff_eq,
    Nat.cast_zero]

theorem isZero_of_value?_eq_none {x : Float} (h : value? x = none) : isZero x = false := by
  rw [isZero_eq_false_iff]
  intro s hs
  obtain h | h := value?_eq_none_iff.1 h
  · rw [Float.isNaN, Float.Model.isNaN, hs] at h
    cases h
  · rw [Float.isInf, Float.Model.isInf, hs] at h
    cases h

theorem IsPositive.isZero_eq_false {x : Float} (h : IsPositive x.toModel.unpack) :
    isZero x = false := by
  rw [isZero_eq_false_iff]
  intro s hs
  rw [hs] at h
  obtain h | ⟨_, _, _, h, -⟩ := h <;> cases h

theorem wholeMagnitude_eq (w : Nat) : wholeMagnitude w =
    if w / 2 ^ 52 < 1023 then 0
    else w / 2 ^ (1075 - w / 2 ^ 52) * 2 ^ (1075 - w / 2 ^ 52) := rfl

theorem wholeMagnitude_of_le {w : Nat} (h : 1075 ≤ w / 2 ^ 52) : wholeMagnitude w = w := by
  rw [wholeMagnitude_eq, if_neg (by omega), Nat.sub_eq_zero_of_le h, Nat.pow_zero, Nat.div_one,
    Nat.mul_one]

theorem unpack_sub (x y : Float) : (x - y).toModel.unpack = unpack Format.binary64
    (pack Format.binary64 (sub Format.binary64 x.toModel.unpack y.toModel.unpack)) := rfl

theorem isZero_fract_of_value?_eq_none {x : Float} (h : value? x = none) :
    isZero (fract x) = false := by
  have hinfinity : infinity = 2047 * 2 ^ 52 := rfl
  have hle : infinity ≤ magnitude x := value?_eq_none_iff_le.1 h
  have htrunc : trunc x = x := by
    rw [trunc, wholeMagnitude_of_le (by omega), ofMagnitude_magnitude]
  -- what is infinite and is taken from itself is no more a number than what was not one before
  have hsub : sub Format.binary64 x.toModel.unpack x.toModel.unpack = .notANumber := by
    obtain h | h := value?_eq_none_iff.1 h
    · rw [Float.isNaN, Float.Model.isNaN] at h
      cases hu : x.toModel.unpack with
      | notANumber => rfl
      | _ =>
        rw [hu] at h
        cases h
    · rw [Float.isInf, Float.Model.isInf] at h
      cases hu : x.toModel.unpack with
      | infinity s => cases s <;> rfl
      | _ =>
        rw [hu] at h
        cases h
  rw [isZero_eq_false_iff, fract, htrunc, unpack_sub, hsub]
  intro s h
  cases h

theorem div_mul_div_of_dvd {b p : Nat} (hp : 0 < p) (h : p ∣ b) (w : Nat) :
    w / p * p / b = w / b := by
  obtain ⟨j, rfl⟩ := h
  rw [← Nat.div_div_eq_div_mul, Nat.mul_div_cancel _ hp, Nat.div_div_eq_div_mul]

theorem wholeMagnitude_bounds {w : Nat} (h : 1023 ≤ w / 2 ^ 52) :
    wholeMagnitude w ≤ w ∧ wholeMagnitude w / 2 ^ 52 = w / 2 ^ 52 := by
  rw [wholeMagnitude_eq, if_neg (Nat.not_lt.2 h)]
  exact ⟨Nat.div_mul_le_self _ _,
    div_mul_div_of_dvd (Nat.two_pow_pos _) (Nat.pow_dvd_pow 2 (by omega)) w⟩

/-- Nothing is taken off exactly from the whole numbers. -/
theorem wholeMagnitude_eq_self_iff {w : Nat} (h : 1023 ≤ w / 2 ^ 52) :
    wholeMagnitude w = w ↔ 2 ^ unitBits ∣ units w := by
  have hexponent : exponent w = w / 2 ^ 52 := Nat.max_eq_left (by omega)
  have hbits : unitBits = 1074 := rfl
  rw [wholeMagnitude_eq, if_neg (Nat.not_lt.2 h), ← Nat.dvd_iff_div_mul_eq, units_eq, hexponent]
  obtain hshort | hlong := Nat.lt_or_ge (w / 2 ^ 52) 1075
  · -- the bits behind the point are the last ones of the significand, and so of the word
    have hpower : 2 ^ unitBits = 2 ^ (1075 - w / 2 ^ 52) * 2 ^ (w / 2 ^ 52 - 1) := by
      rw [← Nat.pow_add]
      congr 1
      omega
    have hdvd : 2 ^ (1075 - w / 2 ^ 52) ∣ 2 ^ 52 := Nat.pow_dvd_pow 2 (by omega)
    rw [hpower, Nat.mul_dvd_mul_iff_right (Nat.two_pow_pos _), significand, if_neg (by omega),
      Nat.dvd_add_right hdvd, Nat.dvd_mod_iff hdvd]
  · have hone : 1075 - w / 2 ^ 52 = 0 := by omega
    rw [hone, Nat.pow_zero]
    exact iff_of_true (Nat.one_dvd w) (Nat.dvd_mul_left_of_dvd (Nat.pow_dvd_pow 2 (by omega)) _)

theorem isZero_sub_iff {x y : Float} {m m' : Nat} {e : Int} (hm : 0 < m) (hm' : 0 < m')
    (hx : x.toModel.unpack = .finite .positive m e hm)
    (hy : y.toModel.unpack = .finite .positive m' e hm') (hle : m' ≤ m) (he : -1074 ≤ e) :
    isZero (x - y) = true ↔ m' = m := by
  have hsub : sub Format.binary64 x.toModel.unpack y.toModel.unpack =
      UnpackedFloat.normalize Format.binary64 ((m - m' : ℕ) : ℤ) e .positive := by
    rw [hx, hy, Int.ofNat_sub hle]
    simp [sub, decreaseExponent, Sign.apply]
  constructor
  · intro hzero
    by_contra hne
    have hpositive : IsPositive (x - y).toModel.unpack := by
      rw [unpack_sub, hsub]
      exact isPositive_normalize (by omega) he
    rw [hpositive.isZero_eq_false] at hzero
    cases hzero
  · rintro rfl
    have hzero : UnpackedFloat.normalize Format.binary64 (0 : ℕ) e .positive =
        .zero .positive := rfl
    rw [isZero_iff, unpack_sub, hsub, Nat.sub_self, hzero]
    exact ⟨.positive, rfl⟩

theorem exists_magnitude_of_one_le {x : Float} {a : ℚ} (h : value? x = some a) (ha : 1 ≤ a) :
    ∃ w, w < infinity ∧ 1023 ≤ w / 2 ^ 52 ∧ x = ofMagnitude false w ∧
      a = units w / 2 ^ unitBits := by
  have hone : (0 : ℚ) < 2 ^ unitBits := by positivity
  have hunits : units (1023 * 2 ^ 52) = 2 ^ unitBits := by decide +kernel
  obtain ⟨hlt, rfl⟩ := exists_of_value?_eq_some h
  have hle : (2 ^ unitBits : ℕ) ≤ signed (isNegative x) (magnitude x) := by
    rw [one_le_div hone] at ha
    exact_mod_cast ha
  have hnegative : isNegative x = false := by
    rw [Bool.eq_false_iff]
    intro hnegative
    have hpos : 0 < 2 ^ unitBits := Nat.two_pow_pos _
    rw [hnegative, signed_true] at hle
    omega
  rw [hnegative, signed_false, Nat.cast_le, ← hunits, units_strictMono.le_iff_le] at hle
  refine ⟨magnitude x, hlt, by omega, ?_, ?_⟩
  · rw [← hnegative, ofMagnitude_magnitude]
  · rw [hnegative, signed_false, Int.cast_natCast]

theorem unpack_ofMagnitude {w : Nat} (hpos : 0 < w) (hlt : w < infinity) :
    ∃ hm, (ofMagnitude false w).toModel.unpack =
      .finite .positive (significand w) (exponent w - 1075) hm := by
  obtain ⟨hm, hfinite⟩ := unpack_word false hpos hlt
  rw [← bits_ofMagnitude false hlt.le] at hfinite
  exact ⟨hm, hfinite⟩

/-- From one on, a double has no fraction exactly if it is a natural number. -/
theorem isZero_fract_iff {x : Float} {a : ℚ} (h : value? x = some a) (ha : 1 ≤ a) :
    isZero (fract x) = true ↔ ∃ n : ℕ, a = n := by
  obtain ⟨w, hlt, hw, rfl, rfl⟩ := exists_magnitude_of_one_le h ha
  obtain ⟨hle, hdiv⟩ := wholeMagnitude_bounds hw
  have htrunc : trunc (ofMagnitude false w) = ofMagnitude false (wholeMagnitude w) := by
    rw [trunc, isNegative_ofMagnitude false hlt.le, magnitude_ofMagnitude false hlt.le]
  -- the whole part has the same exponent, so that the significands differ as the words do
  have hexponent : exponent (wholeMagnitude w) = exponent w := by rw [exponent, hdiv, exponent]
  have hsignificand : significand w + wholeMagnitude w = significand (wholeMagnitude w) + w := by
    have hzero : w / 2 ^ 52 ≠ 0 := by omega
    rw [significand, significand, hdiv, if_neg hzero, if_neg hzero]
    omega
  have hwhole : wholeMagnitude w = w ↔ ∃ n : ℕ, (units w : ℚ) / 2 ^ unitBits = n := by
    rw [wholeMagnitude_eq_self_iff hw]
    have hone : (2 : ℚ) ^ unitBits ≠ 0 := by positivity
    apply exists_congr
    intro n
    rw [div_eq_iff hone, Nat.mul_comm]
    exact_mod_cast Iff.rfl
  obtain ⟨hm, hx⟩ := unpack_ofMagnitude (w := w) (by omega) hlt
  obtain ⟨hm', hy⟩ := unpack_ofMagnitude (w := wholeMagnitude w) (by omega) (by omega)
  rw [hexponent] at hy
  have hfirst : 1 ≤ exponent w := le_max_right _ _
  rw [← hwhole, fract, htrunc, isZero_sub_iff hm hm' hx hy (by omega) (by omega)]
  omega

end Formula.Binary64
