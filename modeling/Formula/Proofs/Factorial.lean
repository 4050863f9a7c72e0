import Mathlib
import Formula.Factorial
import Formula.Proofs.Binary64.Fraction

namespace Formula

open Binary64

/-- The product of `acc` and the `n` numbers from `k` on, with none of them left out. -/
def product (n k : Nat) (acc : Float) : Float :=
  (List.range' k n).foldl (fun y i => y * Float.ofNat i) acc

theorem product_succ (n k : Nat) (acc : Float) :
    product (n + 1) k acc = product n (k + 1) (acc * Float.ofNat k) := rfl

theorem product_add (m n k : Nat) (acc : Float) :
    product (m + n) k acc = product n (k + m) (product m k acc) := by
  rw [product, product, product, ← List.range'_append_1, List.foldl_append]

theorem product_eq_self {acc : Float} (h : acc.isFinite = false) (n : Nat) {k : Nat} (hk : 0 < k) :
    product n k acc = acc := by
  induction n generalizing k with
  | zero => rfl
  | succ n ih =>
    rw [product_succ, mul_ofNat_eq_self h hk]
    exact ih (Nat.succ_pos k)

/-- Multiplying with a counter in doubles: while `k` is at most `x` and the product is finite, the
product is multiplied by `k`, and one is added to `k`. The list has all values of the counter. -/
inductive Turns (x : Float) : (k acc : Float) → List Float → Float → Prop
  | stop {k acc : Float} (h : ¬(k ≤ x ∧ acc.isFinite = true)) : Turns x k acc [k] acc
  | turn {k acc r : Float} {ks : List Float} (h : k ≤ x ∧ acc.isFinite = true)
      (hnext : Turns x (k + 1.0) (acc * k) ks r) : Turns x k acc (k :: ks) r

theorem Turns.unique {x k acc r r' : Float} {ks ks' : List Float} (h : Turns x k acc ks r)
    (h' : Turns x k acc ks' r') : ks = ks' ∧ r = r' := by
  induction h generalizing ks' r' with
  | stop hstop =>
    cases h' with
    | stop => exact ⟨rfl, rfl⟩
    | turn hturn => exact absurd hturn hstop
  | turn hturn _ ih =>
    cases h' with
    | stop hstop => exact absurd hturn hstop
    | turn _ hnext =>
      obtain ⟨rfl, rfl⟩ := ih hnext
      exact ⟨rfl, rfl⟩

theorem isFinite_product : (product maxTurns 2 1.0).isFinite = false := by decide +kernel

section

variable {x : Float} {last k : Nat}

theorem ofNat_le_iff (hx : value? x = some (last : ℚ)) (hk : 2 ≤ k) (hle : k ≤ maxTurns + 2) :
    Float.ofNat k ≤ x ↔ k ≤ last := by
  rw [maxTurns] at hle
  rw [le_iff_of_value? (value?_ofNat (by omega) (by omega)) hx, Nat.cast_le]

theorem product_of_stop (hk : 2 ≤ k) (hle : k ≤ last + 1)
    (h : ¬(k ≤ last ∧ (product (k - 2) 2 1.0).isFinite = true)) :
    product (k - 2) 2 1.0 = product (last - 1) 2 1.0 := by
  have hcount : last - 1 = k - 2 + (last + 1 - k) := by omega
  rw [hcount, product_add]
  by_cases hfinite : (product (k - 2) 2 1.0).isFinite = true
  · have hpast : ¬ k ≤ last := fun hle => h ⟨hle, hfinite⟩
    have hnone : last + 1 - k = 0 := by omega
    rw [hnone]
    rfl
  · have hpos : 0 < 2 + (k - 2) := by omega
    rw [product_eq_self (Bool.eq_false_of_not_eq_true hfinite) _ hpos]

/-- With the product so far, the counter in doubles goes through natural numbers up to one at which
the loop is left, and the result is the whole product. -/
theorem exists_turns (hx : value? x = some (last : ℚ)) {turns : Nat} (hk : 2 ≤ k)
    (hle : k ≤ last + 1) (hturns : k + turns = maxTurns + 2) :
    multiplyOn x turns (Float.ofNat k) (product (k - 2) 2 1.0) = product (last - 1) 2 1.0 ∧
      ∃ m ≤ turns, Turns x (Float.ofNat k) (product (k - 2) 2 1.0)
        ((List.range' k (m + 1)).map Float.ofNat) (product (last - 1) 2 1.0) := by
  have hbound := ofNat_le_iff hx hk (by omega)
  induction turns generalizing k with
  | zero =>
    -- by then the product has overflowed, so the bound on the turns is not what ends the loop
    have hfinite : (product (k - 2) 2 1.0).isFinite = false := by
      obtain rfl : k = maxTurns + 2 := hturns
      exact isFinite_product
    have hstop : ¬(k ≤ last ∧ (product (k - 2) 2 1.0).isFinite = true) := by simp [hfinite]
    rw [multiplyOn, ← product_of_stop hk hle hstop]
    exact ⟨rfl, 0, Nat.le_refl 0, .stop (by rwa [hbound])⟩
  | succ turns ih =>
    rw [multiplyOn]
    by_cases hturn : Float.ofNat k ≤ x ∧ (product (k - 2) 2 1.0).isFinite = true
    · have hlast : k ≤ last := hbound.1 hturn.1
      have hnext : product (k - 2) 2 1.0 * Float.ofNat k = product (k + 1 - 2) 2 1.0 := by
        have hcount : k + 1 - 2 = k - 2 + 1 := by omega
        rw [hcount, product_add, Nat.add_sub_cancel' hk]
        rfl
      have hsucc : Float.ofNat k + 1.0 = Float.ofNat (k + 1) := by
        rw [maxTurns] at hturns
        exact ofNat_add_one (by omega) (by omega)
      obtain ⟨hresult, m, hm, hrun⟩ := ih (k := k + 1) (by omega) (by omega) (by omega)
        (ofNat_le_iff hx (by omega) (by omega))
      rw [if_pos hturn, hsucc, hnext]
      refine ⟨hresult, m + 1, by omega, .turn hturn ?_⟩
      rw [hsucc, hnext]
      exact hrun
    · rw [if_neg hturn, ← product_of_stop hk hle (by rwa [← hbound])]
      exact ⟨rfl, 0, Nat.zero_le _, .stop hturn⟩

end

/-- Has no factorial: not a number, infinite, below zero, or between two whole numbers. -/
def NotNatural (x : Float) : Prop :=
  x.isNaN = true ∨ x.isInf = true ∨ x < 0.0 ∨ ∀ z : ℤ, value? x ≠ some (z : ℚ)

theorem NotNatural.value?_ne {x : Float} (h : NotNatural x) (n : ℕ) : value? x ≠ some (n : ℚ) := by
  intro hvalue
  obtain h | h | h | h := h
  · rw [value?_eq_none_iff.2 (Or.inl h)] at hvalue
    cases hvalue
  · rw [value?_eq_none_iff.2 (Or.inr h)] at hvalue
    cases hvalue
  · rw [lt_iff_of_value? hvalue value?_zero, Nat.cast_lt] at h
    exact absurd h (Nat.not_lt_zero n)
  · exact absurd hvalue (h n)

theorem value?_of_isZero {x : Float} (h : isZero x = true) : value? x = some ((0 : ℕ) : ℚ) := by
  cases hvalue : value? x with
  | none =>
    rw [isZero_of_value?_eq_none hvalue] at h
    cases h
  | some a => rw [(isZero_iff_of_value? hvalue).1 h, Nat.cast_zero]

/-- The two guards let through the positive natural numbers, and nothing else. -/
theorem guards_pass_iff {x : Float} :
    (¬ isZero x = true ∧ ¬(x < 1.0 ∨ ¬ isZero (fract x) = true)) ↔
      ∃ n : ℕ, 0 < n ∧ value? x = some (n : ℚ) := by
  cases hvalue : value? x with
  | none => simp [isZero_fract_of_value?_eq_none hvalue]
  | some a =>
    rw [isZero_iff_of_value? hvalue, lt_iff_of_value? hvalue value?_one, Nat.cast_one, not_or,
      not_lt, not_not]
    constructor
    · rintro ⟨-, hone, hfract⟩
      obtain ⟨n, rfl⟩ := (isZero_fract_iff hvalue hone).1 hfract
      exact ⟨n, by exact_mod_cast hone, rfl⟩
    · rintro ⟨n, hpos, hn⟩
      obtain rfl := Option.some.inj hn
      have hone : (1 : ℚ) ≤ n := by exact_mod_cast hpos
      exact ⟨by positivity, hone, (isZero_fract_iff hvalue hone).2 ⟨n, rfl⟩⟩

theorem factorial_of_notNatural {x : Float} (h : NotNatural x) : (factorial x).isNaN = true := by
  have hzero : ¬ isZero x = true := fun hzero => h.value?_ne 0 (value?_of_isZero hzero)
  have hguard : x < 1.0 ∨ ¬ isZero (fract x) = true := by
    by_contra hpass
    obtain ⟨n, -, hn⟩ := guards_pass_iff.1 ⟨hzero, hpass⟩
    exact h.value?_ne n hn
  rw [factorial, if_neg hzero, if_pos hguard]
  decide +kernel

theorem factorial_of_pos {x : Float} {n : ℕ} (hpos : 0 < n) (h : value? x = some (n : ℚ)) :
    factorial x = multiplyOn x maxTurns (Float.ofNat 2) (product 0 2 1.0) := by
  obtain ⟨hzero, hguard⟩ := guards_pass_iff.2 ⟨n, hpos, h⟩
  rw [factorial, if_neg hzero, if_neg hguard]
  rfl

theorem eq_zero_of_value? {x : Float} (h : value? x = some (0 : ℕ)) : x = 0.0 ∨ x = -0.0 := by
  obtain ⟨-, hsigned⟩ := value?_eq_natCast_iff.1 h
  have hmagnitude : magnitude x = 0 := by
    by_contra hne
    have hpos := units_pos (Nat.pos_of_ne_zero hne)
    cases hnegative : isNegative x with
    | false =>
      rw [hnegative, signed_false] at hsigned
      omega
    | true =>
      rw [hnegative, signed_true] at hsigned
      omega
  have hx := ofMagnitude_magnitude x
  rw [hmagnitude] at hx
  rw [← hx]
  cases isNegative x
  · exact Or.inl rfl
  · exact Or.inr rfl

theorem zero_or_notNatural_or_pos (x : Float) :
    (x = 0.0 ∨ x = -0.0) ∨ NotNatural x ∨ ∃ n : ℕ, 0 < n ∧ value? x = some (n : ℚ) := by
  cases hvalue : value? x with
  | none =>
    obtain h | h := value?_eq_none_iff.1 hvalue
    · exact Or.inr (Or.inl (Or.inl h))
    · exact Or.inr (Or.inl (Or.inr (Or.inl h)))
  | some a =>
    by_cases hwhole : ∃ z : ℤ, a = z
    · obtain ⟨z, rfl⟩ := hwhole
      obtain hneg | rfl | hpos := lt_trichotomy z 0
      · refine Or.inr (Or.inl (Or.inr (Or.inr (Or.inl ?_))))
        rw [lt_iff_of_value? hvalue value?_zero]
        exact_mod_cast hneg
      · exact Or.inl (eq_zero_of_value? hvalue)
      · lift z to ℕ using hpos.le
        exact Or.inr (Or.inr ⟨z, Int.natCast_pos.1 hpos, rfl⟩)
    · refine Or.inr (Or.inl (Or.inr (Or.inr (Or.inr ?_))))
      intro z hz
      rw [hvalue] at hz
      exact hwhole ⟨z, Option.some.inj hz⟩

/-- Zeros have the factorial zero, what is not natural has none, and a positive natural number has
the product of the numbers up to it: all of them from the left, of which the loop takes as many as
make a difference. Its counter comes to natural numbers only, also where `x` is so large that one
more than `x` is no double. -/
theorem factorial_eq_product (x : Float) :
    ((x = 0.0 ∨ x = -0.0) ∨ NotNatural x ∨ ∃ n : ℕ, 0 < n ∧ value? x = some (n : ℚ)) ∧
      (x = 0.0 ∨ x = -0.0 → factorial x = 0.0) ∧
      (NotNatural x → (factorial x).isNaN = true) ∧
      ∀ n : ℕ, 0 < n → value? x = some (n : ℚ) →
        factorial x = product (n - 1) 2 1.0 ∧
        ∃ m, (∀ ks r, Turns x 2.0 1.0 ks r ↔
            ks = (List.range' 2 (m + 1)).map Float.ofNat ∧ r = factorial x) ∧
          ∀ k ∈ List.range' 2 (m + 1), value? (Float.ofNat k) = some (k : ℚ) := by
  refine ⟨zero_or_notNatural_or_pos x, ?_, factorial_of_notNatural, ?_⟩
  · rintro (rfl | rfl)
    · decide +kernel
    · decide +kernel
  · intro n hpos hvalue
    obtain ⟨hresult, m, hm, hturns⟩ :=
      exists_turns hvalue (Nat.le_refl 2) (by omega) (Nat.add_comm 2 maxTurns)
    rw [factorial_of_pos hpos hvalue, hresult]
    refine ⟨rfl, m, ?_, ?_⟩
    · intro ks r
      constructor
      · intro h
        exact h.unique hturns
      · rintro ⟨rfl, rfl⟩
        exact hturns
    · intro k hk
      rw [maxTurns] at hm
      obtain ⟨hle, hlt⟩ := List.mem_range'_1.1 hk
      exact value?_ofNat (by omega) (by omega)

theorem factorial_eq_product_instances :
    factorial (-0.0) = 0.0 ∧
      (∀ x ∈ [0.0 / 0.0, 1.0 / 0.0, -1.0 / 0.0, -1.5, 2.5], (factorial x).isNaN = true) ∧
      factorial 9007199254740994.0 = product 9007199254740993 2 1.0 ∧
      (∃ ks, Turns 9007199254740994.0 2.0 1.0 ks (factorial 9007199254740994.0)) ∧
      Turns 3.0 2.0 1.0 [2.0, 3.0, 4.0] 6.0 ∧ factorial 3.0 = 6.0 := by
  have hbroken (z : ℤ) : value? 2.5 ≠ some (z : ℚ) := by
    intro h
    have hmod : signed (isNegative 2.5) (magnitude 2.5) % 2 ^ unitBits ≠ 0 := by decide +kernel
    rw [(value?_eq_intCast_iff.1 h).2, Int.mul_emod_left] at hmod
    exact hmod rfl
  have hlarge : value? 9007199254740994.0 = some ((9007199254740994 : ℕ) : ℚ) :=
    value?_eq_natCast_iff.2 (by decide +kernel)
  have hthree : value? 3.0 = some ((3 : ℕ) : ℚ) := value?_eq_natCast_iff.2 (by decide +kernel)
  have hrun : Turns 3.0 2.0 1.0 [2.0, 3.0, 4.0] 6.0 :=
    .turn (by decide +kernel) (.turn (by decide +kernel) (.stop (by decide +kernel)))
  obtain ⟨hproduct, _, hturns, -⟩ := (factorial_eq_product _).2.2.2 _ (by decide) hlarge
  obtain ⟨-, _, hturns', -⟩ := (factorial_eq_product _).2.2.2 _ (by decide) hthree
  refine ⟨(factorial_eq_product _).2.1 (Or.inr rfl), ?_, hproduct, ⟨_, (hturns _ _).2 ⟨rfl, rfl⟩⟩,
    hrun, ((hturns' _ _).1 hrun).2.symm⟩
  simp only [List.forall_mem_cons]
  refine ⟨(factorial_eq_product _).2.2.1 (Or.inl (by decide +kernel)),
    (factorial_eq_product _).2.2.1 (Or.inr (Or.inl (by decide +kernel))),
    (factorial_eq_product _).2.2.1 (Or.inr (Or.inl (by decide +kernel))),
    (factorial_eq_product _).2.2.1 (Or.inr (Or.inr (Or.inl (by decide +kernel)))),
    (factorial_eq_product _).2.2.1 (Or.inr (Or.inr (Or.inr hbroken))), ?_⟩
  simp

end Formula
