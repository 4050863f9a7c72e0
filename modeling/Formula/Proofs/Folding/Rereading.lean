import Formula.Proofs.DecimalText.Rereading
import Formula.Proofs.Folding
import Formula.Proofs.Grammar.Leaves
import Formula.Proofs.Printing.RoundTrip
import Formula.Proofs.Substitution

namespace Formula

namespace Expr

/-- Without symbols no operation stays: a tree comes to a number of its own, or to the value of an
operation. -/
theorem Folds.exists_number {e f : Expr} (h : Folds e f) (hs : ∀ s, .symbol s ∉ e.leaves) :
    ∃ n, f = atom (.number n) ∧ (.number n ∈ e.leaves ∨ ∃ x, n = Number.ofFloat x) := by
  induction h with
  | leaf a =>
    cases a with
    | number n => exact ⟨n, rfl, Or.inl (List.mem_singleton_self _)⟩
    | symbol s => exact absurd (List.mem_singleton_self _) (hs s)
  | unaryValue h hx hy ih => exact ⟨_, rfl, Or.inr ⟨_, rfl⟩⟩
  | binaryValue hl hr hx hy hz ihl ihr => exact ⟨_, rfl, Or.inr ⟨_, rfl⟩⟩
  | unary h hf ih =>
    -- the operand has come to a number, so that the operation would have been computed
    obtain ⟨n, rfl, -⟩ := ih hs
    cases hf
  | binary hl hr h ihl ihr =>
    obtain ⟨n, rfl, -⟩ := ihl fun s hmem => hs s (List.mem_append_left _ hmem)
    obtain ⟨n', rfl, -⟩ := ihr fun s hmem => hs s (List.mem_append_right _ hmem)
    obtain h | h := h <;> cases h

def foldedText? (source : String) : Option String := do
  let e ← (parse source).toOption
  let f ← e.fold.toOption
  return f.render

theorem foldedText?_eq {source : String} {e f : Expr} (he : parse source = .ok e)
    (hf : e.fold = .ok f) : foldedText? source = some f.render := by
  rw [foldedText?, he]
  change (e.fold.toOption.bind fun f => some f.render) = _
  rw [hf]
  rfl

theorem parse_of_writes {text : String} {m : Level} {e : Expr} (h : Writes text.toList m e) :
    parse text = .ok e := by
  apply parse_of_derives_parts
  have hvisible : Lexeme.visible text = text.toList := by
    rw [Lexeme.visible, List.filter_eq_self]
    intro c hc
    rw [h.visible c hc]
    rfl
  rw [Lexeme.ofSource, hvisible]
  exact h.derives.mono (Nat.zero_le _)

theorem foldedText?_of_written {text : String} {x : Float}
    (h : (Atom.number ⟨text, x⟩).Written) : foldedText? text = some text :=
  foldedText?_eq (parse_of_writes (writes_atom h)) rfl

theorem foldedText?_minus {text : String} {x : Float} (h : (Atom.number ⟨text, x⟩).Written) :
    foldedText? ("-" ++ text) = some (Decimal.writeFloat (-x)) := by
  have hwrites : Writes ("-" ++ text).toList .factor (unary .minus (atom (.number ⟨text, x⟩))) := by
    rw [String.toList_append]
    exact ((writes_atom h).mono (Nat.le_succ _)).minus
  exact foldedText?_eq (f := ofFloat (-x)) (parse_of_writes hwrites) rfl

theorem written_writeFloat {w : Nat} (h : w < Binary64.infinity) :
    let x := Binary64.ofMagnitude false w
    (Atom.number ⟨Decimal.writeFloat x, x⟩).Written := by
  refine ⟨?_, Decimal.readFloat?_writeFloat _⟩
  rw [Decimal.writeFloat_ofMagnitude false (Nat.le_of_lt h), if_neg (by decide),
    String.toList_ofList]
  exact Decimal.isDecimal_writeMagnitude h

theorem ne_of_isDecimal {text : String} (h : Decimal.IsDecimal text.toList) (word : String)
    (hword : word.toList.head?.any Char.isDigit = false) : text ≠ word := by
  rintro rfl
  obtain ⟨c, cs, hcs, hc⟩ := h.exists_digit
  rw [hcs, List.head?_cons, Option.any_some, hc] at hword
  contradiction

theorem writeFloat_neg {w : Nat} (h : w ≤ Binary64.infinity) :
    Decimal.writeFloat (Binary64.ofMagnitude true w) =
      "-" ++ Decimal.writeFloat (Binary64.ofMagnitude false w) := by
  apply String.toList_inj.1
  simp [Decimal.writeFloat_ofMagnitude _ h]

theorem foldedText?_finite (negative : Bool) {w : Nat} (h : w < Binary64.infinity) :
    let text := Decimal.writeFloat (Binary64.ofMagnitude negative w)
    foldedText? text = some text ∧ text ≠ "-inf" := by
  have hnumber := Nat.le_of_lt h
  have hwritten := written_writeFloat h
  cases negative with
  | false => exact ⟨foldedText?_of_written hwritten, ne_of_isDecimal hwritten.1 "-inf" rfl⟩
  | true =>
    have hminus := foldedText?_minus hwritten
    rw [Binary64.neg_ofMagnitude false hnumber, Bool.not_false] at hminus
    simp only [writeFloat_neg hnumber] at hminus ⊢
    refine ⟨hminus, ?_⟩
    -- behind the minus stands a digit, not a name
    change "-" ++ _ ≠ "-" ++ "inf"
    exact mt (String.append_right_inj "-").1 (ne_of_isDecimal hwritten.1 "inf" rfl)

/-- The text of a double is read again as that double, and gives the text once more; but for the
negative infinity the name behind the minus is that of a symbol. -/
theorem foldedText?_writeFloat (x : Float) : foldedText? (Decimal.writeFloat x) =
    some (if Decimal.writeFloat x = "-inf" then "(- inf)" else Decimal.writeFloat x) := by
  by_cases hnumber : Binary64.magnitude x ≤ Binary64.infinity
  · rw [← Binary64.ofMagnitude_magnitude x]
    generalize Binary64.isNegative x = negative
    generalize Binary64.magnitude x = w at hnumber
    by_cases hinfinite : w = Binary64.infinity
    · subst hinfinite
      cases negative <;> decide +kernel
    · obtain ⟨htext, hne⟩ := foldedText?_finite negative (Nat.lt_of_le_of_ne hnumber hinfinite)
      rw [htext, if_neg hne]
  · rw [Binary64.eq_nan_of_infinity_lt (Nat.lt_of_not_le hnumber)]
    decide +kernel

/-- A tree without symbols folds to a number, and the text of the number is read again. Folding
what was read gives the same text, unless the value was the negative infinity, which is read as an
operation on a symbol. -/
theorem foldedText?_again {source : String} {e : Expr} (h : parse source = .ok e)
    (hs : e.symbols = []) :
    ∃ text, foldedText? source = some text ∧
      foldedText? text = some (if text = "-inf" then "(- inf)" else text) := by
  have hsymbols : ∀ s, .symbol s ∉ e.leaves := by
    intro s hmem
    have hname : s.name ∈ e.symbols := mem_symbols_iff.2 ⟨.symbol s, hmem, rfl⟩
    rw [hs] at hname
    cases hname
  obtain ⟨f, hf⟩ := exists_folds (wellFormed_of_parse h)
  obtain ⟨n, rfl, hn⟩ := hf.exists_number hsymbols
  refine ⟨n.text, foldedText?_eq h (fold_eq_of_folds hf), ?_⟩
  obtain hmem | ⟨x, rfl⟩ := hn
  · have hwritten := written_of_parse h _ hmem
    rw [if_neg (ne_of_isDecimal hwritten.1 "-inf" rfl)]
    exact foldedText?_of_written hwritten
  · exact foldedText?_writeFloat x

theorem foldedText?_again_quotient :
    ∃ e, parse "(1-3)/8" = .ok e ∧ e.symbols = [] ∧
      ∃ text, foldedText? "(1-3)/8" = some text ∧
        foldedText? text = some (if text = "-inf" then "(- inf)" else text) := by
  let number : Nat → Expr := fun n => ofFloat (Float.ofNat n)
  let e := binary .divide (binary .minus (number 1) (number 3)) (number 8)
  have he : parse "(1-3)/8" = .ok e := by decide +kernel
  have hs : e.symbols = [] := by decide +kernel
  exact ⟨e, he, hs, foldedText?_again he hs⟩

theorem not_foldedText?_again : ¬ ∀ (source : String) (e : Expr), parse source = .ok e →
    e.symbols = [] → ∃ text, foldedText? source = some text ∧ foldedText? text = some text := by
  intro hagain
  obtain ⟨text, htext, hagain⟩ := hagain "-1/0" (binary .divide (unary .minus (ofFloat 1.0))
    (ofFloat 0.0)) (by decide +kernel) (by decide +kernel)
  have hinfinity : foldedText? "-1/0" = some "-inf" := by decide +kernel
  obtain rfl := Option.some.inj (hinfinity.symm.trans htext)
  revert hagain
  decide +kernel

end Expr

end Formula
