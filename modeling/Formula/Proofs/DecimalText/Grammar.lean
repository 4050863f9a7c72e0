import Formula.Proofs.DecimalText

namespace Formula.Decimal

inductive IsSign : List Char → Prop
  | none : IsSign []
  | minus : IsSign ['-']
  | plus : IsSign ['+']

inductive IsCoefficient : List Char → Prop
  | whole {cs : List Char} (h : IsDigits cs) : IsCoefficient cs
  | pointBehind {cs ds : List Char} (h : IsDigits cs) (h' : ∀ d ∈ ds, d.isDigit = true) :
      IsCoefficient (cs ++ '.' :: ds)
  | pointBefore {cs ds : List Char} (h : ∀ c ∈ cs, c.isDigit = true) (h' : IsDigits ds) :
      IsCoefficient (cs ++ '.' :: ds)

inductive IsExponent : List Char → Prop
  | none : IsExponent []
  | some {c : Char} {s ds : List Char} (h : c = 'e' ∨ c = 'E') (hs : IsSign s) (hds : IsDigits ds) :
      IsExponent (c :: (s ++ ds))

inductive IsMagnitude : List Char → Prop
  | word {cs : List Char} (h : IsWord cs) : IsMagnitude cs
  | number {cs es : List Char} (h : IsCoefficient cs) (h' : IsExponent es) : IsMagnitude (cs ++ es)

inductive IsFloat : List Char → Prop
  | signed {s cs : List Char} (h : IsSign s) (h' : IsMagnitude cs) : IsFloat (s ++ cs)

def Unsigned (cs : List Char) : Prop := ∀ c ∈ cs.head?, c ≠ '-' ∧ c ≠ '+'

theorem exists_sign (cs : List Char) : ∃ s, IsSign s ∧ s ++ (splitSign cs).2 = cs := by
  unfold splitSign
  split
  · exact ⟨['-'], .minus, rfl⟩
  · exact ⟨['+'], .plus, rfl⟩
  · exact ⟨[], .none, rfl⟩

theorem splitSign_append {s cs : List Char} (hs : IsSign s) (hcs : Unsigned cs) :
    (splitSign (s ++ cs)).2 = cs := by
  cases hs with
  | none =>
    rw [List.nil_append]
    unfold splitSign
    split
    · exact absurd rfl (hcs '-' rfl).1
    · exact absurd rfl (hcs '+' rfl).2
    · rfl
  | minus => rfl
  | plus => rfl

theorem unsigned_cons {c : Char} (hminus : c ≠ '-') (hplus : c ≠ '+') (cs : List Char) :
    Unsigned (c :: cs) := by
  intro d hd
  cases hd
  exact ⟨hminus, hplus⟩

theorem IsDigits.unsigned_append {cs : List Char} (h : IsDigits cs) (ds : List Char) :
    Unsigned (cs ++ ds) := by
  obtain ⟨c, cs, rfl⟩ := List.exists_cons_of_ne_nil h.1
  have hdigit := h.2 c List.mem_cons_self
  apply unsigned_cons
  · rintro rfl
    contradiction
  · rintro rfl
    contradiction

theorem isDigits_iff {cs : List Char} :
    IsDigits cs ↔ (!cs.isEmpty && cs.all Char.isDigit) = true := by
  rw [IsDigits, Bool.and_eq_true, List.all_eq_true, Bool.not_eq_true', List.isEmpty_eq_false_iff]

theorem toLower_eq_e_iff {c : Char} : c.toLower = 'e' ↔ c = 'e' ∨ c = 'E' := by
  constructor
  · intro h
    by_cases hupper : c.val ≥ 'A'.val ∧ c.val ≤ 'Z'.val
    · have hval : c.toLower.val = c.val + 32 := congrArg Char.val (dif_pos hupper)
      have hle : c.val.toNat ≤ 90 := hupper.2
      have hadd : (c.val.toNat + 32) % 2 ^ 32 = 101 := by
        rw [h] at hval
        exact (congrArg UInt32.toNat hval).symm
      right
      apply Char.ext
      apply UInt32.toNat_inj.1
      change c.val.toNat = 69
      omega
    · have hsame : c.toLower = c := dif_neg hupper
      rw [hsame] at h
      exact Or.inl h
  · rintro (rfl | rfl)
    · rfl
    · rfl

theorem readExponent?_isSome_iff {cs : List Char} :
    (readExponent? cs).isSome = true ↔ IsExponent cs := by
  cases cs with
  | nil => exact iff_of_true rfl .none
  | cons c cs =>
    have hread : (readExponent? (c :: cs)).isSome = true ↔
        (c = 'e' ∨ c = 'E') ∧ IsDigits (splitSign cs).2 := by
      rw [← toLower_eq_e_iff, isDigits_iff]
      simp only [readExponent?, Option.isSome_ite, Bool.and_eq_true, decide_eq_true_eq, and_assoc]
    rw [hread]
    constructor
    · rintro ⟨hc, hdigits⟩
      obtain ⟨s, hs, hcs⟩ := exists_sign cs
      rw [← hcs]
      exact .some hc hs hdigits
    · intro h
      cases h with
      | some hc hs hds =>
        have hunsigned := hds.unsigned_append []
        rw [List.append_nil] at hunsigned
        rw [splitSign_append hs hunsigned]
        exact ⟨hc, hds⟩

theorem splitFraction_cases (cs : List Char) :
    (cs = '.' :: ((splitFraction cs).1 ++ (splitFraction cs).2) ∧
      ∀ c ∈ (splitFraction cs).1, c.isDigit = true) ∨
    splitFraction cs = ([], cs) := by
  unfold splitFraction
  split
  · next ds =>
    exact Or.inl ⟨congrArg (List.cons '.') List.takeWhile_append_dropWhile.symm,
      fun c hc => List.mem_takeWhile_imp hc⟩
  · exact Or.inr rfl

theorem IsExponent.not_isDigit_head {es : List Char} (h : IsExponent es) :
    ∀ c ∈ es.head?, c.isDigit = false := by
  intro c hc
  cases h with
  | none => cases hc
  | some h =>
    cases hc
    obtain rfl | rfl := h
    · rfl
    · rfl

theorem IsExponent.splitFraction {es : List Char} (h : IsExponent es) :
    splitFraction es = ([], es) := by
  cases h with
  | none => rfl
  | some h =>
    obtain rfl | rfl := h
    · rfl
    · rfl

theorem splitFraction_point {ds es : List Char} (hds : ∀ d ∈ ds, d.isDigit = true)
    (hes : IsExponent es) : Decimal.splitFraction ('.' :: (ds ++ es)) = (ds, es) := by
  rw [Decimal.splitFraction, Text.takeWhile_append hds hes.not_isDigit_head,
    Text.dropWhile_append hds hes.not_isDigit_head]

theorem read?_isSome_iff {cs : List Char} : (read? cs).isSome = true ↔
    (cs.takeWhile Char.isDigit ≠ [] ∨ (splitFraction (cs.dropWhile Char.isDigit)).1 ≠ []) ∧
      IsExponent (splitFraction (cs.dropWhile Char.isDigit)).2 := by
  rw [read?]
  cases splitFraction (cs.dropWhile Char.isDigit) with
  | mk fraction rest =>
    dsimp only
    rw [← readExponent?_isSome_iff]
    by_cases hempty : ((cs.takeWhile Char.isDigit).isEmpty && fraction.isEmpty) = true
    · rw [if_pos hempty]
      rw [Bool.and_eq_true, List.isEmpty_iff, List.isEmpty_iff] at hempty
      apply iff_of_false
      · exact Bool.false_ne_true
      · rintro ⟨hne | hne, -⟩
        · exact hne hempty.1
        · exact hne hempty.2
    · rw [if_neg hempty, Option.isSome_map]
      rw [Bool.and_eq_true, List.isEmpty_iff, List.isEmpty_iff, not_and_or] at hempty
      exact (and_iff_right hempty).symm

theorem exists_number_of_read? {cs : List Char} (h : (read? cs).isSome = true) :
    ∃ ds es, IsCoefficient ds ∧ IsExponent es ∧ ds ++ es = cs := by
  obtain ⟨hne, hexponent⟩ := read?_isSome_iff.1 h
  have hwhole : ∀ c ∈ cs.takeWhile Char.isDigit, c.isDigit = true :=
    fun c hc => List.mem_takeWhile_imp hc
  have hcs : cs.takeWhile Char.isDigit ++ cs.dropWhile Char.isDigit = cs :=
    List.takeWhile_append_dropWhile
  obtain ⟨hpoint, hfraction⟩ | hpoint := splitFraction_cases (cs.dropWhile Char.isDigit)
  · refine ⟨cs.takeWhile Char.isDigit ++ '.' :: (splitFraction (cs.dropWhile Char.isDigit)).1, _,
      ?_, hexponent, ?_⟩
    · obtain hne | hne := hne
      · exact .pointBehind ⟨hne, hwhole⟩ hfraction
      · exact .pointBefore hwhole ⟨hne, hfraction⟩
    · rw [List.append_assoc, List.cons_append, ← hpoint, hcs]
  · rw [hpoint] at hne hexponent
    have hwhole' := hne.resolve_right fun h => h rfl
    exact ⟨_, _, .whole ⟨hwhole', hwhole⟩, hexponent, hcs⟩

theorem read?_isSome_of_point {cs ds es : List Char} (hcs : ∀ c ∈ cs, c.isDigit = true)
    (hds : ∀ d ∈ ds, d.isDigit = true) (hne : cs ≠ [] ∨ ds ≠ []) (hes : IsExponent es) :
    (read? (cs ++ '.' :: ds ++ es)).isSome = true := by
  have hstop : ∀ c ∈ ('.' :: (ds ++ es)).head?, c.isDigit = false := by
    intro c hc
    cases hc
    rfl
  rw [List.append_assoc, List.cons_append, read?_isSome_iff, Text.takeWhile_append hcs hstop,
    Text.dropWhile_append hcs hstop, splitFraction_point hds hes]
  exact ⟨hne, hes⟩

theorem read?_isSome_of_number {cs es : List Char} (hcs : IsCoefficient cs) (hes : IsExponent es) :
    (read? (cs ++ es)).isSome = true := by
  cases hcs with
  | whole h =>
    rw [read?_isSome_iff, Text.takeWhile_append h.2 hes.not_isDigit_head,
      Text.dropWhile_append h.2 hes.not_isDigit_head, hes.splitFraction]
    exact ⟨Or.inl h.1, hes⟩
  | pointBehind h h' => exact read?_isSome_of_point h.2 h' (Or.inl h.1) hes
  | pointBefore h h' => exact read?_isSome_of_point h h'.2 (Or.inr h'.1) hes

theorem readMagnitude?_isSome_of_isWord {cs : List Char} (h : IsWord cs) :
    (readMagnitude? cs).isSome = true := by
  rw [isWord_iff, ← or_assoc] at h
  rw [readMagnitude?]
  split
  · rfl
  · next hinf =>
    rw [Bool.or_eq_true, decide_eq_true_eq, decide_eq_true_eq] at hinf
    rw [if_pos (h.resolve_left hinf)]
    rfl

theorem readMagnitude?_isSome_iff {cs : List Char} :
    (readMagnitude? cs).isSome = true ↔ IsMagnitude cs := by
  have hread : (readMagnitude? cs).isSome = true ↔ IsWord cs ∨ (read? cs).isSome = true := by
    by_cases hword : IsWord cs
    · exact iff_of_true (readMagnitude?_isSome_of_isWord hword) (Or.inl hword)
    · rw [readMagnitude?_of_not_isWord hword, Option.isSome_map, or_iff_right hword]
  rw [hread]
  constructor
  · rintro (hword | hnumber)
    · exact .word hword
    · obtain ⟨ds, es, hds, hes, rfl⟩ := exists_number_of_read? hnumber
      exact .number hds hes
  · intro h
    cases h with
    | word h => exact Or.inl h
    | number h h' => exact Or.inr (read?_isSome_of_number h h')

theorem IsWord.unsigned {cs : List Char} (h : IsWord cs) : Unsigned cs := by
  obtain ⟨c, ds, rfl, hc⟩ := h.exists_head
  apply unsigned_cons
  · rintro rfl
    exact absurd hc (by decide)
  · rintro rfl
    exact absurd hc (by decide)

theorem IsCoefficient.unsigned_append {cs : List Char} (h : IsCoefficient cs) (es : List Char) :
    Unsigned (cs ++ es) := by
  cases h with
  | whole h => exact h.unsigned_append es
  | pointBehind h =>
    rw [List.append_assoc]
    exact h.unsigned_append _
  | @pointBefore cs ds h =>
    rw [List.append_assoc]
    cases cs with
    | nil => exact unsigned_cons (by decide) (by decide) (ds ++ es)
    | cons c cs => exact IsDigits.unsigned_append ⟨List.cons_ne_nil c cs, h⟩ _

theorem IsMagnitude.unsigned {cs : List Char} (h : IsMagnitude cs) : Unsigned cs := by
  cases h with
  | word h => exact h.unsigned
  | number h => exact h.unsigned_append _

theorem readFloat?_isSome_iff {text : String} :
    (readFloat? text).isSome = true ↔ IsFloat text.toList := by
  rw [readFloat?, Option.isSome_map, readMagnitude?_isSome_iff]
  generalize text.toList = cs
  constructor
  · intro h
    obtain ⟨s, hs, hcs⟩ := exists_sign cs
    rw [← hcs]
    exact .signed hs h
  · intro h
    cases h with
    | signed hs h =>
      rw [splitSign_append hs h.unsigned]
      exact h

end Formula.Decimal
