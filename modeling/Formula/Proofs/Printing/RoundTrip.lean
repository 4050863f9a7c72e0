import Formula.Proofs.Grammar.Completeness
import Formula.Proofs.Lexeme.Cuts
import Formula.Proofs.Printing

namespace Formula

namespace Operator

theorem ofWord?_eq_none {s : String} (h : s ∉ ["sin", "cos", "tan", "sqrt"]) :
    ofWord? s = none := by
  rw [ofWord?, List.find?_eq_none]
  intro op hop hsymbol
  obtain rfl : op.symbol = s := of_decide_eq_true hsymbol
  apply h
  simp only [List.mem_cons, List.not_mem_nil, or_false] at hop
  obtain rfl | rfl | rfl | rfl := hop <;> decide

theorem ofChars_word {op : Operator} (h : op.isWord = true) :
    (Lexeme.ofChars op.symbol.toList).map Lexeme.kind = [.operator op] := by
  have hletters : op.symbol.toList ≠ [] ∧ ∀ c ∈ op.symbol.toList, Lexeme.isLetter c = true := by
    cases op <;> first | exact absurd h (by decide) | exact ⟨by decide, List.all_eq_true.1 rfl⟩
  rw [Lexeme.ofChars_letters hletters.1 hletters.2]
  cases op <;> first | exact absurd h (by decide) | rfl

end Operator

namespace Expr

theorem isBlank_of_ofMark? {c : Char} {op : Operator} (h : Operator.ofMark? c = some op) :
    Text.isBlank c = false := by
  unfold Operator.ofMark? at h
  split at h <;> first | decide | cases h

theorem isBlank_of_isDigit {c : Char} (h : c.isDigit = true) : Text.isBlank c = false := by
  simp only [Char.isDigit, Bool.and_eq_true, decide_eq_true_eq, ge_iff_le,
    UInt32.le_iff_toNat_le] at h
  have hlow : 48 ≤ c.toNat := h.1
  have hhigh : c.toNat ≤ 57 := h.2
  simp only [Text.isBlank, Bool.or_eq_false_iff, Bool.and_eq_false_iff, decide_eq_false_iff_not,
    beq_eq_false_iff_ne]
  omega

theorem visible_decimal {cs : List Char} (h : Decimal.IsDecimal cs) :
    ∀ c ∈ cs, Text.isBlank c = false := by
  cases h with
  | whole h => exact fun c hc => isBlank_of_isDigit (h.2 c hc)
  | fraction h h' =>
    exact List.forall_mem_append.2 ⟨fun c hc => isBlank_of_isDigit (h.2 c hc),
      List.forall_mem_cons.2 ⟨by decide, fun c hc => isBlank_of_isDigit (h'.2 c hc)⟩⟩

theorem visible_symbol (op : Operator) : ∀ c ∈ op.symbol.toList, Text.isBlank c = false := by
  have hall : (op.symbol.toList.all fun c => !Text.isBlank c) = true := by
    cases op <;> rfl
  simpa using hall

theorem visible_group {cs : List Char} (h : ∀ c ∈ cs, Text.isBlank c = false) :
    ∀ c ∈ '(' :: (cs ++ [')']), Text.isBlank c = false := by
  intro c hc
  obtain rfl | hc := List.mem_cons.1 hc
  · decide
  obtain hc | hc := List.mem_append.1 hc
  · exact h c hc
  · obtain rfl := List.mem_singleton.1 hc
    decide

/-- A text without blanks whose parts derive the tree. -/
structure Writes (cs : List Char) (m : Level) (e : Expr) : Prop where
  visible : ∀ c ∈ cs, Text.isBlank c = false
  derives : Derives m ((Lexeme.ofChars cs).map Lexeme.kind) e

theorem Writes.mono {cs : List Char} {l m : Level} {e : Expr} (h : Writes cs m e)
    (hle : l.rank ≤ m.rank) : Writes cs l e :=
  ⟨h.visible, h.derives.mono hle⟩

theorem Writes.group {cs : List Char} {e : Expr} (h : Writes cs .sum e) :
    Writes ('(' :: (cs ++ [')'])) .primary e := by
  refine ⟨visible_group h.visible, ?_⟩
  have hparts := Lexeme.ofChars_append_group [] cs []
  rw [Lexeme.ofChars_nil, List.nil_append, List.nil_append] at hparts
  rw [hparts, List.map_cons, List.map_append]
  exact h.derives.group

theorem Writes.between {c : Char} {op : Operator} {m : Level} {cs ds : List Char} {l r : Expr}
    (hc : Operator.ofMark? c = some op) (hop : op.level? = some m) (hl : Writes cs m.left l)
    (hr : Writes ds m.right r) : Writes (cs ++ c :: ds) m (binary op l r) := by
  have hpoint : op ≠ .point := by
    rintro rfl
    cases hop
  refine ⟨?_, ?_⟩
  · exact List.forall_mem_append.2 ⟨hl.visible, List.forall_mem_cons.2
      ⟨isBlank_of_ofMark? hc, hr.visible⟩⟩
  · rw [Lexeme.ofChars_append_mark hc hpoint, List.map_append, List.map_cons]
    exact hl.derives.between hop hr.derives

theorem Writes.minus {cs : List Char} {e : Expr} (h : Writes cs .factor e) :
    Writes ('-' :: cs) .factor (unary .minus e) := by
  have hmark : Operator.ofMark? '-' = some .minus := rfl
  refine ⟨List.forall_mem_cons.2 ⟨by decide, h.visible⟩, ?_⟩
  rw [Lexeme.ofChars_mark_cons hmark (by decide), List.map_cons]
  exact h.derives.before_of_isBefore rfl

theorem Writes.factorial {cs : List Char} {e : Expr} (h : Writes cs .primary e) :
    Writes (cs ++ ['!']) .primary (unary .factorial e) := by
  have hmark : Operator.ofMark? '!' = some .factorial := rfl
  refine ⟨?_, ?_⟩
  · exact List.forall_mem_append.2 ⟨h.visible, List.forall_mem_singleton.2 rfl⟩
  · rw [Lexeme.ofChars_append_mark hmark (by decide), Lexeme.ofChars_nil, List.map_append]
    exact h.derives.after

theorem Writes.call {op : Operator} {cs : List Char} {e : Expr} (hop : op.isWord = true)
    (h : Writes cs .sum e) :
    Writes (op.symbol.toList ++ '(' :: (cs ++ [')'])) .factor (unary op e) := by
  refine ⟨?_, ?_⟩
  · exact List.forall_mem_append.2 ⟨visible_symbol op, visible_group h.visible⟩
  · rw [Lexeme.ofChars_append_group, Lexeme.ofChars_nil, List.map_append, Operator.ofChars_word hop,
      List.map_cons, List.map_append]
    exact h.derives.group.factorOfPrimary.before_of_isBefore (Operator.isBefore_of_isWord hop)

theorem Writes.root {cs ds : List Char} {l r : Expr} (hl : Writes cs .sum l)
    (hr : Writes ds .sum r) :
    Writes ('(' :: (cs ++ ')' :: (Operator.sqrt.symbol.toList ++ '(' :: (ds ++ [')'])))) .power
      (binary .sqrt l r) := by
  have hword : Operator.sqrt.isWord = true := rfl
  refine ⟨?_, ?_⟩
  · have hvisible := List.forall_mem_append.2 ⟨visible_group hl.visible,
      List.forall_mem_append.2 ⟨visible_symbol .sqrt, visible_group hr.visible⟩⟩
    simpa using hvisible
  · have hparts := Lexeme.ofChars_append_group [] cs
      (Operator.sqrt.symbol.toList ++ '(' :: (ds ++ [')']))
    rw [Lexeme.ofChars_nil, List.nil_append, List.nil_append, Lexeme.ofChars_append_group,
      Lexeme.ofChars_nil] at hparts
    have hsqrt : Operator.sqrt ∈ [Operator.power, .sqrt] := by decide
    have hderives := Derives.power hsqrt hl.derives.group.factorOfPrimary
      hr.derives.group.factorOfPrimary.powerOfFactor
    rw [hparts]
    simpa [Operator.ofChars_word hword, Lexeme.kind] using hderives

theorem Writes.enclose {text : String} {b : Bool} {m : Level} {e : Expr}
    (h : Writes text.toList e.level e) (hb : b = false → m.rank ≤ e.level.rank)
    (hm : m.rank ≤ Level.primary.rank) : Writes (enclose b text).toList m e := by
  rw [toList_enclose]
  cases b with
  | false => exact h.mono (hb rfl)
  | true => exact (h.mono (Nat.zero_le _)).group.mono hm

theorem writes_atom {a : Atom} (h : a.Written) : Writes a.text.toList .primary (atom a) := by
  cases a with
  | number n =>
    obtain ⟨hdecimal, hvalue⟩ := h
    refine ⟨?_, ?_⟩
    · exact visible_decimal hdecimal
    · have hnumber : Lexeme.numberOf n.text.toList = n := by
        rw [Lexeme.numberOf, String.ofList_toList, hvalue]
        rfl
      have hparts : (Lexeme.ofChars n.text.toList).map Lexeme.kind = [.number n] := by
        rw [Lexeme.ofChars_decimal hdecimal, List.map_singleton, Lexeme.kind, hnumber]
      exact hparts ▸ Derives.number n
  | symbol s =>
    obtain ⟨hbound, hne, hword, hchars⟩ := h
    refine ⟨fun c hc => (hchars c hc).1, ?_⟩
    have hletters : ∀ c ∈ s.name.toList, Lexeme.isLetter c = true := fun c hc => (hchars c hc).2
    have hsymbol : Symbol.ofName s.name = s := by
      rw [Symbol.ofName, ← hbound]
    have hparts : (Lexeme.ofChars s.name.toList).map Lexeme.kind = [.symbol s] := by
      rw [Lexeme.ofChars_letters (by simpa using hne) hletters, List.map_singleton, Lexeme.kind,
        String.ofList_toList, Operator.ofWord?_eq_none hword]
      exact congrArg (fun t => [Token.Kind.symbol t]) hsymbol
    exact hparts ▸ Derives.symbol s

theorem writes_unary {op : Operator} {e : Expr} (hop : op.takes 1 = true)
    (h : Writes e.print.toList e.level e) :
    Writes (unary op e).print.toList (unary op e).level (unary op e) := by
  obtain rfl | rfl | hword := Operator.factorial_or_minus_or_word hop
  · have hoperand : Writes (enclose (enclosesOnly .factorial e) e.print).toList .primary e :=
      h.enclose rank_le_of_enclosesOnly_factorial (Nat.le_refl _)
    have hwrites := hoperand.factorial
    simpa [print, Operator.symbol, level] using hwrites
  · have hoperand : Writes (enclose (enclosesOnly .minus e) e.print).toList .factor e :=
      h.enclose rank_le_of_enclosesOnly_minus (by decide)
    have hwrites := hoperand.minus
    simpa [print, Operator.symbol, level] using hwrites
  · have hfactorial : op ≠ .factorial := by
      rintro rfl
      cases hword
    have hwrites := (h.mono (Nat.zero_le _)).call hword
    simpa [print, level, hfactorial, enclosesOnly_of_isWord hword, toList_enclose] using hwrites

theorem writes_binary {op : Operator} {l r : Expr} (hop : op.takes 2 = true) (hwl : l.WellFormed)
    (hwr : r.WellFormed) (hl : Writes l.print.toList l.level l)
    (hr : Writes r.print.toList r.level r) :
    Writes (binary op l r).print.toList (binary op l r).level (binary op l r) := by
  obtain ⟨m, hm⟩ := Operator.exists_level?_of_takes_two hop
  obtain rfl | ⟨c, hsymbol, hc⟩ := Operator.sqrt_or_mark hop
  · have hword : Operator.sqrt.isWord = true := rfl
    have hwrites := (hl.mono (Nat.zero_le _)).root (hr.mono (Nat.zero_le _))
    rw [level_binary rfl]
    simpa [print, enclosesBeside_of_isWord hword, toList_enclose] using hwrites
  · have hleft :
        Writes (enclose (enclosesBeside op .left l) l.print).toList (m.beside .left) l :=
      hl.enclose (rank_le_of_enclosesBeside hm hwl)
        (Nat.le_succ_of_le (rank_beside_le_factor hm .left))
    have hright :
        Writes (enclose (enclosesBeside op .right r) r.print).toList (m.beside .right) r :=
      hr.enclose (rank_le_of_enclosesBeside hm hwr)
        (Nat.le_succ_of_le (rank_beside_le_factor hm .right))
    have hwrites := Writes.between hc hm hleft hright
    rw [level_binary hm]
    simpa [print, hsymbol] using hwrites

theorem writes_print {e : Expr} (he : e.WellFormed) (hleaves : ∀ a ∈ e.leaves, a.Written) :
    Writes e.print.toList e.level e := by
  induction e with
  | atom a => exact writes_atom (hleaves a List.mem_cons_self)
  | unary op e ih => exact writes_unary he.1 (ih he.2 hleaves)
  | binary op l r ihl ihr =>
    have hl := ihl he.2.1 fun a ha => hleaves a (List.mem_append_left r.leaves ha)
    have hr := ihr he.2.2 fun a ha => hleaves a (List.mem_append_right l.leaves ha)
    exact writes_binary he.1 he.2.1 he.2.2 hl hr

/-- A tree whose operators have a meaning for their operands, and whose atoms can be written, is
read from what is printed of it. -/
theorem parse_print {e : Expr} (he : e.WellFormed) (hleaves : ∀ a ∈ e.leaves, a.Written) :
    parse e.print = .ok e := by
  obtain ⟨ts, hts, hkinds⟩ := Token.exists_ofSource e.print
  obtain ⟨hvisible, hderives⟩ := writes_print he hleaves
  have hchars : Lexeme.visible e.print = e.print.toList := by
    rw [Lexeme.visible, List.filter_eq_self]
    intro c hc
    rw [hvisible c hc]
    rfl
  rw [Lexeme.ofSource, hchars] at hkinds
  refine parse_of_derives (TokenStream.ofSource_eq hts) ?_
  rw [hkinds]
  exact hderives.mono (Nat.zero_le _)

theorem parse_print_difference :
    let x := Expr.atom (.symbol (.ofName "x"))
    let n := Expr.atom (.number ⟨"2.5", 2.5⟩)
    let e := binary .minus x (binary .minus (unary .factorial (unary .minus n)) (binary .sqrt x n))
    e.WellFormed ∧ (∀ a ∈ e.leaves, a.Written) ∧ e.print = "x-((-2.5)!-(x)sqrt(2.5))" ∧
      parse e.print = .ok e := by
  intro x n e
  have he : e.WellFormed := by simp [e, x, n, WellFormed, Operator.takes, Operator.unary?,
    Operator.binary?]
  have hsymbol : (Atom.symbol (.ofName "x")).Written := by
    refine ⟨rfl, by decide, by decide, ?_⟩
    have hname : (Symbol.ofName "x").name.toList = ['x'] := by decide
    rw [hname]
    exact List.forall_mem_singleton.2 ⟨rfl, rfl⟩
  have hnumber : (Atom.number ⟨"2.5", 2.5⟩).Written := by
    refine ⟨?_, by decide +kernel⟩
    have htext : "2.5".toList = ['2'] ++ '.' :: ['5'] := by decide
    rw [htext]
    exact .fraction ⟨by decide, List.all_eq_true.1 rfl⟩ ⟨by decide, List.all_eq_true.1 rfl⟩
  have hleaves : ∀ a ∈ e.leaves, a.Written := by
    intro a ha
    simp only [e, x, n, leaves, List.cons_append, List.nil_append, List.mem_cons,
      List.not_mem_nil, or_false] at ha
    obtain rfl | rfl | rfl | rfl := ha <;> assumption
  exact ⟨he, hleaves, by decide, parse_print he hleaves⟩

end Expr

end Formula
