import Formula.Decimal.Writer
import Formula.Proofs.Binary64
import Formula.Proofs.DecimalText

namespace Formula.Decimal

theorem natOfDigits_eq (cs : List Char) : natOfDigits cs = Nat.ofDigitChars 10 cs 0 := by
  rw [Nat.ofDigitChars_eq_foldl]
  rfl

theorem natOfDigits_digits (n : Nat) : natOfDigits (digits n) = n := by
  rw [natOfDigits_eq, digits, Nat.ofDigitChars_ten_toDigits]

theorem natOfDigits_append (cs ds : List Char) :
    natOfDigits (cs ++ ds) = natOfDigits cs * 10 ^ ds.length + natOfDigits ds := by
  simp only [natOfDigits_eq]
  rw [Nat.ofDigitChars_append, Nat.ofDigitChars_eq_ofDigitChars_zero, Nat.mul_comm]

theorem natOfDigits_replicate (n : Nat) : natOfDigits (List.replicate n '0') = 0 := by
  rw [natOfDigits_eq, Nat.ofDigitChars_replicate_zero, Nat.mul_zero]

theorem natOfDigits_paddedDigits (n m : Nat) : natOfDigits (paddedDigits n m) = m := by
  rw [paddedDigits, natOfDigits_append, natOfDigits_replicate, natOfDigits_digits, Nat.zero_mul,
    Nat.zero_add]

theorem length_paddedDigits {n m : Nat} (hn : 0 < n) (h : m < 10 ^ n) :
    (paddedDigits n m).length = n := by
  have hlength : (digits m).length ≤ n := (Nat.length_toDigits_le_iff (by decide) hn).2 h
  rw [paddedDigits, List.length_append, List.length_replicate]
  omega

theorem isDigits_digits (n : Nat) : IsDigits (digits n) :=
  ⟨Nat.toDigits_ne_nil, fun _ hc => Nat.isDigit_of_mem_toDigits (by decide) (by decide) hc⟩

theorem isDigit_of_mem_replicate {n : Nat} {c : Char} (h : c ∈ List.replicate n '0') :
    c.isDigit = true := by
  rw [List.eq_of_mem_replicate h]
  rfl

theorem isDigits_paddedDigits (n m : Nat) : IsDigits (paddedDigits n m) := by
  obtain ⟨hne, hdigit⟩ := isDigits_digits m
  refine ⟨List.append_ne_nil_of_right_ne_nil _ hne, ?_⟩
  exact List.forall_mem_append.2 ⟨fun _ => isDigit_of_mem_replicate, hdigit⟩

theorem isDigits_append_zeros {cs : List Char} (h : IsDigits cs) (n : Nat) :
    IsDigits (cs ++ List.replicate n '0') := by
  refine ⟨List.append_ne_nil_of_left_ne_nil h.1 _, ?_⟩
  exact List.forall_mem_append.2 ⟨h.2, fun _ => isDigit_of_mem_replicate⟩

theorem isDecimal_write (d : Decimal) : IsDecimal (write d) := by
  obtain ⟨coefficient, exponent⟩ := d
  cases exponent with
  | ofNat n => exact .whole (isDigits_append_zeros (isDigits_digits coefficient) n)
  | negSucc n => exact .fraction (isDigits_digits _) (isDigits_paddedDigits _ _)

theorem nearest_whole (coefficient n : Nat) :
    (Decimal.mk coefficient n).nearest = Binary64.nearest (coefficient * 10 ^ n) 1 := rfl

theorem nearest_places (coefficient n : Nat) :
    (Decimal.mk coefficient (-n)).nearest = Binary64.nearest coefficient (10 ^ n) := by
  cases n with
  | zero =>
    rw [Int.natCast_zero, Int.neg_zero, ← Int.natCast_zero, nearest_whole, Nat.pow_zero,
      Nat.mul_one]
  | succ n => rfl

theorem read?_write (d : Decimal) : (read? (write d)).map nearest = some d.nearest := by
  obtain ⟨coefficient, exponent⟩ := d
  cases exponent with
  | ofNat n =>
    have hread : natOfDigits (digits coefficient ++ List.replicate n '0') =
        coefficient * 10 ^ n := by
      rw [natOfDigits_append, natOfDigits_digits, natOfDigits_replicate, List.length_replicate,
        Nat.add_zero]
    rw [write, read?_whole (isDigits_append_zeros (isDigits_digits coefficient) n), hread,
      Option.map_some, ← Int.natCast_zero, nearest_whole, Nat.pow_zero, Nat.mul_one]
    exact congrArg some (nearest_whole coefficient n).symm
  | negSucc n =>
    have hpow : 0 < 10 ^ (n + 1) := Nat.pow_pos (by decide)
    have hlength : (paddedDigits (n + 1) (coefficient % 10 ^ (n + 1))).length = n + 1 :=
      length_paddedDigits (Nat.succ_pos n) (Nat.mod_lt _ hpow)
    have hread : natOfDigits (digits (coefficient / 10 ^ (n + 1)) ++
        paddedDigits (n + 1) (coefficient % 10 ^ (n + 1))) = coefficient := by
      rw [natOfDigits_append, natOfDigits_digits, natOfDigits_paddedDigits, hlength,
        Nat.div_add_mod']
    simp only [write, Nat.pow_eq]
    rw [read?_fraction (isDigits_digits _) (isDigits_paddedDigits _ _), hread, hlength,
      Option.map_some, nearest_places]
    exact congrArg some (nearest_places coefficient (n + 1)).symm

theorem nearest_exact {w : Nat} (h : w < Binary64.infinity) :
    (exact (Binary64.units w)).nearest = w := by
  rw [exact, nearest_places]
  -- a half is five tenths, so that many places write any number of units
  apply Binary64.nearest_units h (Nat.pow_pos (by decide))
  rw [Nat.pow_eq, Nat.mul_assoc, ← Nat.mul_pow]

/-- The decimal that is written for a finite magnitude is rounded to it: each one that is tried is
kept only if it is, and the exact one always is. -/
theorem nearest_shortest {w : Nat} (h : w < Binary64.infinity) : (shortest w).nearest = w := by
  rw [shortest]
  cases hhit : (List.range' 1 17).findSome? fun n =>
      (neighbours (Binary64.units w) n).find? (·.nearest = w) with
  | none => exact nearest_exact h
  | some d =>
    obtain ⟨n, -, hfind⟩ := List.exists_of_findSome?_eq_some hhit
    simpa using List.find?_some hfind

theorem isDecimal_writeMagnitude {w : Nat} (h : w < Binary64.infinity) :
    IsDecimal (writeMagnitude w) := by
  rw [writeMagnitude, if_neg (Nat.ne_of_lt h)]
  split
  · exact .whole ⟨List.cons_ne_nil _ _, List.forall_mem_singleton.2 rfl⟩
  · exact isDecimal_write _

theorem readMagnitude?_writeMagnitude {w : Nat} (h : w ≤ Binary64.infinity) :
    readMagnitude? (writeMagnitude w) = some w := by
  by_cases hinfinite : w = Binary64.infinity
  · subst hinfinite
    decide +kernel
  · have hfinite : w < Binary64.infinity := Nat.lt_of_le_of_ne h hinfinite
    rw [readMagnitude?_of_isDecimal (isDecimal_writeMagnitude hfinite), writeMagnitude,
      if_neg hinfinite]
    split
    · next hzero =>
      subst hzero
      decide +kernel
    · rw [read?_write, nearest_shortest hfinite]

theorem splitSign_writeMagnitude {w : Nat} (h : w ≤ Binary64.infinity) :
    splitSign (writeMagnitude w) = (false, writeMagnitude w) := by
  by_cases hinfinite : w = Binary64.infinity
  · subst hinfinite
    decide +kernel
  · have hfinite : w < Binary64.infinity := Nat.lt_of_le_of_ne h hinfinite
    obtain ⟨c, ds, hcs, hc⟩ := (isDecimal_writeMagnitude hfinite).exists_digit
    rw [hcs, splitSign_digit hc]

theorem writeFloat_ofMagnitude (negative : Bool) {w : Nat} (h : w ≤ Binary64.infinity) :
    writeFloat (Binary64.ofMagnitude negative w) =
      String.ofList (if negative then '-' :: writeMagnitude w else writeMagnitude w) := by
  simp only [writeFloat, Binary64.magnitude_ofMagnitude negative h,
    Binary64.isNegative_ofMagnitude negative h]
  rw [if_neg (Nat.not_lt.2 h)]

theorem readFloat?_writeFloat (x : Float) : readFloat? (writeFloat x) = some x := by
  by_cases hnumber : Binary64.magnitude x ≤ Binary64.infinity
  · have hsplit := splitSign_writeMagnitude hnumber
    have hread := readMagnitude?_writeMagnitude hnumber
    rw [← Binary64.ofMagnitude_magnitude x, writeFloat_ofMagnitude _ hnumber, readFloat?,
      String.toList_ofList]
    cases Binary64.isNegative x
    · simp [hsplit, hread]
    · simp [splitSign, hread]
  · rw [Nat.not_le] at hnumber
    rw [writeFloat, if_pos hnumber, Binary64.eq_nan_of_infinity_lt hnumber]
    decide +kernel

end Formula.Decimal
