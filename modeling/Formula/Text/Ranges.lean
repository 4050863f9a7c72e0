namespace Formula.Text

/-- The ranges rise, so a range that starts past the character ends the search. -/
def inRanges (ranges : List (Nat × Nat)) (c : Char) : Bool :=
  match ranges with
  | [] => false
  | (first, last) :: rest =>
    if c.toNat < first then false else c.toNat ≤ last || inRanges rest c

def rising (n : Nat) : List (Nat × Nat) → Bool
  | [] => true
  | (first, last) :: rest => n ≤ first && first ≤ last && rising (last + 1) rest

theorem le_of_mem_rising {n : Nat} {ranges : List (Nat × Nat)} (h : rising n ranges = true)
    {r : Nat × Nat} (hr : r ∈ ranges) : n ≤ r.1 := by
  induction ranges generalizing n with
  | nil => simp at hr
  | cons s rest ih =>
    simp only [rising, Bool.and_eq_true, decide_eq_true_eq] at h
    obtain ⟨⟨h₁, h₂⟩, h₃⟩ := h
    obtain rfl | hr := List.mem_cons.1 hr
    · exact h₁
    · have := ih h₃ hr
      omega

theorem inRanges_iff {n : Nat} {ranges : List (Nat × Nat)} (h : rising n ranges = true)
    (c : Char) : inRanges ranges c = true ↔ ∃ r ∈ ranges, r.1 ≤ c.toNat ∧ c.toNat ≤ r.2 := by
  induction ranges generalizing n with
  | nil => simp [inRanges]
  | cons s rest ih =>
    simp only [rising, Bool.and_eq_true, decide_eq_true_eq] at h
    obtain ⟨⟨h₁, h₂⟩, h₃⟩ := h
    have hrest (r : Nat × Nat) (hr : r ∈ rest) : s.2 < r.1 := le_of_mem_rising h₃ hr
    by_cases hc : c.toNat < s.1
    · simp only [inRanges, hc, if_true, List.mem_cons, Bool.false_eq_true, false_iff]
      rintro ⟨r, rfl | hr, hr₁, _⟩
      · omega
      · have := hrest r hr
        omega
    · simp only [inRanges, hc, if_false, Bool.or_eq_true, decide_eq_true_eq, ih h₃,
        List.mem_cons, exists_eq_or_imp]
      constructor
      · rintro (hl | hr)
        · exact Or.inl ⟨by omega, hl⟩
        · exact Or.inr hr
      · rintro (⟨_, hl⟩ | hr)
        · exact Or.inl hl
        · exact Or.inr hr

end Formula.Text
