import Mathlib.Data.List.TakeWhile
import Formula.Decimal.Reader

namespace Formula

namespace Text

variable {p : Char → Bool} {cs ds : List Char}

theorem takeWhile_append (hcs : ∀ c ∈ cs, p c = true) (hds : ∀ c ∈ ds.head?, p c = false) :
    (cs ++ ds).takeWhile p = cs := by
  rw [List.takeWhile_append_of_pos hcs]
  cases ds with
  | nil => exact List.append_nil cs
  | cons d ds =>
    have hd : p d = false := hds d rfl
    rw [List.takeWhile_cons_of_neg (by simp [hd]), List.append_nil]

theorem dropWhile_append (hcs : ∀ c ∈ cs, p c = true) (hds : ∀ c ∈ ds.head?, p c = false) :
    (cs ++ ds).dropWhile p = ds := by
  rw [List.dropWhile_append_of_pos hcs]
  cases ds with
  | nil => rfl
  | cons d ds =>
    have hd : p d = false := hds d rfl
    rw [List.dropWhile_cons_of_neg (by simp [hd])]

end Text

namespace Decimal

def IsDigits (cs : List Char) : Prop := cs ≠ [] ∧ ∀ c ∈ cs, c.isDigit = true

inductive IsDecimal : List Char → Prop
  | whole {cs : List Char} (h : IsDigits cs) : IsDecimal cs
  | fraction {cs ds : List Char} (h : IsDigits cs) (h' : IsDigits ds) :
      IsDecimal (cs ++ '.' :: ds)

theorem isDigits_append {cs ds : List Char} (h : IsDigits cs) (h' : IsDigits ds) :
    IsDigits (cs ++ ds) := by
  refine ⟨List.append_ne_nil_of_left_ne_nil h.1 ds, ?_⟩
  intro c hc
  obtain hc | hc := List.mem_append.1 hc
  · exact h.2 c hc
  · exact h'.2 c hc

theorem IsDecimal.exists_digit {cs : List Char} (h : IsDecimal cs) :
    ∃ c ds, cs = c :: ds ∧ c.isDigit = true := by
  cases h with
  | whole h =>
    obtain ⟨c, ds, rfl⟩ := List.exists_cons_of_ne_nil h.1
    exact ⟨c, ds, rfl, h.2 c List.mem_cons_self⟩
  | @fraction cs ds h h' =>
    obtain ⟨c, cs, rfl⟩ := List.exists_cons_of_ne_nil h.1
    exact ⟨c, cs ++ '.' :: ds, rfl, h.2 c List.mem_cons_self⟩

theorem splitSign_digit {c : Char} (h : c.isDigit = true) (cs : List Char) :
    splitSign (c :: cs) = (false, c :: cs) := by
  have hminus : c ≠ '-' := by rintro rfl; contradiction
  have hplus : c ≠ '+' := by rintro rfl; contradiction
  unfold splitSign
  split <;> simp_all

theorem read?_whole {cs : List Char} (h : IsDigits cs) : read? cs = some ⟨natOfDigits cs, 0⟩ := by
  rw [read?, List.takeWhile_eq_self_iff.2 h.2, List.dropWhile_eq_nil_iff.2 h.2]
  simp [splitFraction, readExponent?, h.1]

theorem read?_fraction {cs ds : List Char} (h : IsDigits cs) (h' : IsDigits ds) :
    read? (cs ++ '.' :: ds) = some ⟨natOfDigits (cs ++ ds), -ds.length⟩ := by
  have htake : (cs ++ '.' :: ds).takeWhile Char.isDigit = cs := by
    rw [List.takeWhile_append_of_pos h.2]
    simp
  have hdrop : (cs ++ '.' :: ds).dropWhile Char.isDigit = '.' :: ds := by
    rw [List.dropWhile_append_of_pos h.2]
    simp
  rw [read?, htake, hdrop]
  simp [splitFraction, readExponent?, h.1, List.takeWhile_eq_self_iff.2 h'.2,
    List.dropWhile_eq_nil_iff.2 h'.2]

theorem read?_isSome {cs : List Char} (h : IsDecimal cs) : (read? cs).isSome = true := by
  cases h with
  | whole h => rw [read?_whole h, Option.isSome_some]
  | fraction h h' => rw [read?_fraction h h', Option.isSome_some]

theorem toLower_of_isDigit {c : Char} (h : c.isDigit = true) : c.toLower = c := by
  have hupper : ¬(c.val ≥ 'A'.val ∧ c.val ≤ 'Z'.val) := by
    simp only [Char.isDigit, Bool.and_eq_true, decide_eq_true_eq] at h
    rintro ⟨hle, -⟩
    exact absurd (UInt32.le_trans hle h.2) (by decide)
  exact dif_neg hupper

def IsWord (cs : List Char) : Prop :=
  String.ofList (cs.map Char.toLower) ∈ ["inf", "infinity", "nan"]

theorem isWord_iff {cs : List Char} : IsWord cs ↔
    String.ofList (cs.map Char.toLower) = "inf" ∨ String.ofList (cs.map Char.toLower) = "infinity" ∨
      String.ofList (cs.map Char.toLower) = "nan" := by
  rw [IsWord, List.mem_cons, List.mem_cons, List.mem_singleton]

theorem IsWord.exists_head {cs : List Char} (h : IsWord cs) :
    ∃ c ds, cs = c :: ds ∧ (c.toLower = 'i' ∨ c.toLower = 'n') := by
  cases cs with
  | nil =>
    have hempty : String.ofList [] ∉ ["inf", "infinity", "nan"] := by decide
    exact absurd h hempty
  | cons c cs =>
    refine ⟨c, cs, rfl, ?_⟩
    obtain h | h | h := isWord_iff.1 h
    · exact Or.inl (List.cons.inj (String.ofList_injective h)).1
    · exact Or.inl (List.cons.inj (String.ofList_injective h)).1
    · exact Or.inr (List.cons.inj (String.ofList_injective h)).1

theorem readMagnitude?_of_not_isWord {cs : List Char} (h : ¬IsWord cs) :
    readMagnitude? cs = (read? cs).map nearest := by
  rw [isWord_iff, not_or, not_or] at h
  rw [readMagnitude?, if_neg, if_neg h.2.2]
  simp only [Bool.or_eq_true, decide_eq_true_eq, not_or]
  exact ⟨h.1, h.2.1⟩

theorem readMagnitude?_of_isDecimal {cs : List Char} (h : IsDecimal cs) :
    readMagnitude? cs = (read? cs).map nearest := by
  apply readMagnitude?_of_not_isWord
  intro hword
  obtain ⟨c, ds, hcs, hc⟩ := hword.exists_head
  obtain ⟨d, es, hcs', hd⟩ := h.exists_digit
  rw [hcs, List.cons.injEq] at hcs'
  rw [hcs'.1, toLower_of_isDigit hd] at hc
  obtain rfl | rfl := hc
  · contradiction
  · contradiction

theorem readFloat?_of_isDecimal {cs : List Char} (h : IsDecimal cs) :
    readFloat? (String.ofList cs) =
      ((read? cs).map nearest).map (Binary64.ofMagnitude false) := by
  have hmagnitude := readMagnitude?_of_isDecimal h
  obtain ⟨c, ds, rfl, hc⟩ := h.exists_digit
  rw [readFloat?, String.toList_ofList, splitSign_digit hc]
  exact congrArg (Option.map (Binary64.ofMagnitude false)) hmagnitude

theorem readFloat?_isSome {cs : List Char} (h : IsDecimal cs) :
    (readFloat? (String.ofList cs)).isSome = true := by
  rw [readFloat?_of_isDecimal h, Option.isSome_map, Option.isSome_map]
  exact read?_isSome h

end Decimal

end Formula
