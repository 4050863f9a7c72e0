import Formula.Proofs.Binary64

namespace Formula.Binary64

open Float.Model (UnpackedFloat)

/-- From the negative infinity to the positive one, and among finite magnitudes by the exponent
before the significand. -/
def placeOf : UnpackedFloat → Option (ℤ ×ₗ ℤ ×ₗ ℤ)
  | .notANumber => none
  | .infinity .negative => some (toLex (-2, toLex (0, 0)))
  | .finite .negative m e _ => some (toLex (-1, toLex (-e, -m)))
  | .zero _ => some (toLex (0, toLex (0, 0)))
  | .finite .positive m e _ => some (toLex (1, toLex (e, m)))
  | .infinity .positive => some (toLex (2, toLex (0, 0)))

def place? (x : Float) : Option (ℤ ×ₗ ℤ ×ₗ ℤ) := placeOf x.toModel.unpack

theorem compare_toLex (k a b a' b' : ℤ) :
    compare (toLex (k, toLex (a, b))) (toLex (k, toLex (a', b'))) =
      (compare a a').then (compare b b') := by
  simp [Prod.Lex.compare_def, compareLex, compareOn]

theorem compare_natCast (m n : ℕ) : compare (m : ℤ) n = compare m n := by
  simpa only [cmp_eq_compare] using (Nat.strictMono_cast (α := ℤ)).cmp_map_eq m n

theorem compare_neg_neg (a b : ℤ) : compare (-a) (-b) = (compare a b).swap := by
  have h : StrictAnti fun a : ℤ => -a := fun a b h => neg_lt_neg h
  rw [← Std.OrientedOrd.eq_swap]
  simpa only [cmp_eq_compare] using h.cmp_map_eq a b

theorem compare_eq_compare_placeOf (u v : UnpackedFloat) :
    u.compare v = (placeOf u).bind fun a => (placeOf v).map (compare a) := by
  -- only two finite doubles of one sign leave something to compare
  rcases u with ⟨_ | _⟩ | _ | _ | ⟨_ | _, m, e, hm⟩ <;>
    rcases v with ⟨_ | _⟩ | _ | _ | ⟨_ | _, m', e', hm'⟩ <;> try rfl
  case finite.negative.finite.negative =>
    simp only [UnpackedFloat.compare, placeOf, Option.bind_some, Option.map_some, compare_toLex,
      compare_neg_neg, compare_natCast, Ordering.swap_then]
  case finite.positive.finite.positive =>
    simp only [UnpackedFloat.compare, placeOf, Option.bind_some, Option.map_some, compare_toLex,
      compare_natCast]

theorem lt_iff_place? {x y : Float} : x < y ↔ ∃ a ∈ place? x, ∃ b ∈ place? y, a < b := by
  have h : x < y ↔ x.toModel.unpack.lt y.toModel.unpack = true := decide_eq_true_iff
  rw [h, UnpackedFloat.lt, beq_iff_eq, compare_eq_compare_placeOf, place?, place?]
  cases placeOf x.toModel.unpack <;> cases placeOf y.toModel.unpack <;> simp [compare_lt_iff_lt]

theorem le_iff_place? {x y : Float} : x ≤ y ↔ ∃ a ∈ place? x, ∃ b ∈ place? y, a ≤ b := by
  have h : x ≤ y ↔ x.toModel.unpack.le y.toModel.unpack = true := decide_eq_true_iff
  rw [h, UnpackedFloat.le, compare_eq_compare_placeOf, place?, place?]
  cases placeOf x.toModel.unpack <;> cases placeOf y.toModel.unpack <;>
    simp [Ordering.isLE_iff_ne_gt, compare_le_iff_le]

protected theorem lt_of_lt_of_le {x y z : Float} (h : x < y) (h' : y ≤ z) : x < z := by
  obtain ⟨a, ha, b, hb, hab⟩ := lt_iff_place?.1 h
  obtain ⟨b', hb', c, hc, hbc⟩ := le_iff_place?.1 h'
  obtain rfl := Option.mem_unique hb hb'
  exact lt_iff_place?.2 ⟨a, ha, c, hc, hab.trans_le hbc⟩

theorem place?_eq_none {x : Float} (h : x.isNaN = true) : place? x = none := by
  have hx : x.toModel.unpack.isNaN = true := h
  rw [place?]
  cases hu : x.toModel.unpack with
  | notANumber => rfl
  | _ =>
    rw [hu] at hx
    cases hx

theorem not_lt_of_isNaN {x y : Float} (h : y.isNaN = true) : ¬ x < y := by
  intro hlt
  obtain ⟨-, -, b, hb, -⟩ := lt_iff_place?.1 hlt
  rw [place?_eq_none h] at hb
  cases hb

end Formula.Binary64
