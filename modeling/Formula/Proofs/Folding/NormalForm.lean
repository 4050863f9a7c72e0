import Formula.Proofs.Folding
import Mathlib.Data.List.Forall2

namespace Formula

def Atom.free? : Atom → Option Symbol
  | .number _ => none
  | .symbol s => if s.bound = none then some s else none

namespace Expr

/-- The symbols without a value from left to right, each as often as it stands there. -/
def free (e : Expr) : List Symbol := e.leaves.filterMap Atom.free?

theorem free_unary (op : Operator) (e : Expr) : (unary op e).free = e.free := rfl

theorem free_binary (op : Operator) (l r : Expr) : (binary op l r).free = l.free ++ r.free :=
  List.filterMap_append

theorem free_binary_eq_nil {op : Operator} {l r : Expr} :
    (binary op l r).free = [] ↔ l.free = [] ∧ r.free = [] := by
  rw [free_binary, List.append_eq_nil_iff]

theorem free_ofFloat (x : Float) : (ofFloat x).free = [] := rfl

theorem isResolved_iff_free? {a : Atom} : a.isResolved = true ↔ a.free? = none := by
  cases a with
  | number n => simp [Atom.isResolved, Atom.free?]
  | symbol s => cases h : s.bound <;> simp [Atom.isResolved, Atom.free?, h]

theorem free_of_resolved? {e : Expr} {x : Float} (h : e.resolved? = some x) : e.free = [] := by
  obtain ⟨a, rfl, ha⟩ := eq_atom_of_resolved? h
  rw [free, leaves, List.filterMap_cons_none (isResolved_iff_free?.1 ha), List.filterMap_nil]

theorem free_binary_of_resolved? {op : Operator} {l r : Expr} {x y : Float}
    (hx : l.resolved? = some x) (hy : r.resolved? = some y) : (binary op l r).free = [] :=
  free_binary_eq_nil.2 ⟨free_of_resolved? hx, free_of_resolved? hy⟩

theorem resolved?_eq_none {e : Expr} (h : e.free ≠ []) : e.resolved? = none := by
  cases hx : e.resolved? with
  | none => rfl
  | some x => exact absurd (free_of_resolved? hx) h

theorem resolved?_atom {a : Atom} (h : (atom a).free = []) : ∃ x, (atom a).resolved? = some x := by
  refine ⟨a.value, if_pos (isResolved_iff_free?.2 ?_)⟩
  cases ha : a.free? with
  | none => rfl
  | some s =>
    rw [free, leaves, List.filterMap_cons_some ha] at h
    cases h

/-- Folding neither loses a symbol without a value nor moves it. -/
theorem Folds.free {e f : Expr} (h : Folds e f) : f.free = e.free := by
  induction h with
  | leaf a => rfl
  | @unaryValue op e f x y h hx hy ih => rw [free_ofFloat, free_unary, ← ih, free_of_resolved? hx]
  | unary h hf ih => exact ih
  | @binaryValue op l l' r r' x y z hl hr hx hy hz ihl ihr =>
    have hfree : (Expr.binary op l' r').free = [] := free_binary_of_resolved? hx hy
    rw [free_ofFloat, ← hfree, free_binary, free_binary, ihl, ihr]
  | binary hl hr h ihl ihr => rw [free_binary, free_binary, ihl, ihr]

theorem Folds.exists_resolved? {e f : Expr} (h : Folds e f) (he : e.free = []) :
    ∃ x, f.resolved? = some x := by
  induction h with
  | leaf a => exact resolved?_atom he
  | unaryValue h hx hy ih => exact ⟨_, rfl⟩
  | unary h hf ih =>
    obtain ⟨x, hx⟩ := ih he
    rw [hf] at hx
    cases hx
  | binaryValue hl hr hx hy hz ihl ihr => exact ⟨_, rfl⟩
  | @binary op l l' r r' hl hr h ihl ihr =>
    obtain ⟨hfreel, hfreer⟩ := free_binary_eq_nil.1 he
    obtain ⟨x, hx⟩ := ihl hfreel
    obtain ⟨y, hy⟩ := ihr hfreer
    simp [hx, hy] at h

theorem isAtom_of_resolved? {e : Expr} {x : Float} (h : e.resolved? = some x) :
    e.isAtom = true := by
  obtain ⟨a, rfl, -⟩ := eq_atom_of_resolved? h
  rfl

theorem Folds.isAtom_of_free {e f : Expr} (h : Folds e f) (he : e.free = []) : f.isAtom = true := by
  obtain ⟨x, hx⟩ := h.exists_resolved? he
  exact isAtom_of_resolved? hx

theorem Folds.free_ne_nil {e f : Expr} (h : Folds e f) (hop : f.isAtom = false) : f.free ≠ [] := by
  intro hfree
  have hatom := h.isAtom_of_free (h.free.symm.trans hfree)
  rw [hop] at hatom
  cases hatom

def operator? : Expr → Option Operator
  | atom _ => none
  | unary op _ | binary op _ _ => some op

def operands : Expr → List Expr
  | atom _ => []
  | unary _ e => [e]
  | binary _ l r => [l, r]

/-- The part of a tree at a path, which tells which operand to go to at each operation. -/
def subtree? (e : Expr) : List Nat → Option Expr
  | [] => some e
  | i :: path => e.operands[i]?.bind fun operand => operand.subtree? path

theorem free_eq_nil_of_operand {e operand : Expr} (h : operand ∈ e.operands) (he : e.free = []) :
    operand.free = [] := by
  cases e with
  | atom a => cases h
  | unary op e =>
    obtain rfl := List.mem_singleton.1 h
    exact he
  | binary op l r =>
    obtain ⟨hfreel, hfreer⟩ := free_binary_eq_nil.1 he
    obtain rfl | h := List.mem_cons.1 h
    · exact hfreel
    · obtain rfl := List.mem_singleton.1 h
      exact hfreer

theorem isAtom_eq_isNone (e : Expr) : e.isAtom = e.operator?.isNone := by
  cases e <;> rfl

theorem operands_of_isAtom {e : Expr} (h : e.isAtom = true) : e.operands = [] := by
  cases e with
  | atom a => rfl
  | unary op e => cases h
  | binary op l r => cases h

theorem Folds.stays {e f : Expr} (h : Folds e f) (he : e.free ≠ []) :
    f.operator? = e.operator? ∧ List.Forall₂ Folds e.operands f.operands := by
  cases h with
  | leaf a => exact ⟨rfl, .nil⟩
  | unaryValue h hx hy => exact absurd (h.free.symm.trans (free_of_resolved? hx)) he
  | unary h hf => exact ⟨rfl, .cons h .nil⟩
  | binaryValue hl hr hx hy hz =>
    refine absurd (free_binary_eq_nil.2 ⟨?_, ?_⟩) he
    · exact hl.free.symm.trans (free_of_resolved? hx)
    · exact hr.free.symm.trans (free_of_resolved? hy)
  | binary hl hr h => exact ⟨rfl, .cons hl (.cons hr .nil)⟩

theorem free_eq_nil_of_subtree? {path : List Nat} {e g : Expr} (h : e.subtree? path = some g)
    (he : e.free = []) : g.free = [] := by
  induction path generalizing e with
  | nil =>
    cases h
    exact he
  | cons i path ih =>
    obtain ⟨operand, hoperand, h⟩ := Option.bind_eq_some_iff.1 h
    exact ih h (free_eq_nil_of_operand (List.mem_of_getElem? hoperand) he)

theorem exists_getElem?_of_forall₂ {α β : Type} {R : α → β → Prop} {as : List α} {bs : List β}
    (h : List.Forall₂ R as bs) {i : Nat} {a : α} (ha : as[i]? = some a) :
    ∃ b, bs[i]? = some b ∧ R a b := by
  obtain ⟨hi, rfl⟩ := List.getElem?_eq_some_iff.1 ha
  have hi' : i < bs.length := h.length_eq ▸ hi
  exact ⟨bs[i], List.getElem?_eq_getElem hi', h.get hi hi'⟩

theorem Folds.exists_subtree? {path : List Nat} {e f g : Expr} (h : Folds e f)
    (hg : f.subtree? path = some g) : ∃ g₀, e.subtree? path = some g₀ ∧ Folds g₀ g := by
  induction path generalizing e f with
  | nil =>
    cases hg
    exact ⟨e, rfl, h⟩
  | cons i path ih =>
    obtain ⟨operand, hoperand, hg⟩ := Option.bind_eq_some_iff.1 hg
    have he : e.free ≠ [] := by
      intro he
      rw [operands_of_isAtom (h.isAtom_of_free he)] at hoperand
      cases hoperand
    obtain ⟨operand₀, hoperand₀, hfolds⟩ :=
      exists_getElem?_of_forall₂ (h.stays he).2.flip hoperand
    obtain ⟨g₀, hg₀, hfolds⟩ := ih hfolds hg
    exact ⟨g₀, Option.bind_eq_some_iff.2 ⟨operand₀, hoperand₀, hg₀⟩, hfolds⟩

theorem Folds.exists_subtree?_of_free {path : List Nat} {e f g : Expr} (h : Folds e f)
    (hg : e.subtree? path = some g) (hfree : g.free ≠ []) :
    ∃ g', f.subtree? path = some g' ∧ Folds g g' := by
  induction path generalizing e f with
  | nil =>
    cases hg
    exact ⟨f, rfl, h⟩
  | cons i path ih =>
    have he : e.free ≠ [] := mt (free_eq_nil_of_subtree? hg) hfree
    obtain ⟨operand, hoperand, hg⟩ := Option.bind_eq_some_iff.1 hg
    obtain ⟨operand', hoperand', hfolds⟩ := exists_getElem?_of_forall₂ (h.stays he).2 hoperand
    obtain ⟨g', hg', hfolds⟩ := ih hfolds hg
    exact ⟨g', Option.bind_eq_some_iff.2 ⟨operand', hoperand', hg'⟩, hfolds⟩

/-- The tree `f` has the operator of `e`, and the operands of `e` folded. -/
structure Survives (e f : Expr) : Prop where
  operator : f.operator? = e.operator?
  operands : List.Forall₂ (fun operand folded => operand.fold = .ok folded) e.operands f.operands

theorem Folds.survives {e f : Expr} (h : Folds e f) (he : e.free ≠ []) : Survives e f := by
  obtain ⟨hoperator, hoperands⟩ := h.stays he
  exact ⟨hoperator, hoperands.imp fun _ _ => fold_eq_of_folds⟩

theorem Survives.isAtom {e f : Expr} (h : Survives e f) (he : e.isAtom = false) :
    f.isAtom = false := by
  rw [isAtom_eq_isNone, h.operator, ← isAtom_eq_isNone, he]

theorem Folds.survives_iff {path : List Nat} {e f g : Expr} (h : Folds e f)
    (hg : e.subtree? path = some g) (hop : g.isAtom = false) :
    g.free ≠ [] ↔ ∃ g', f.subtree? path = some g' ∧ Survives g g' := by
  constructor
  · intro hfree
    obtain ⟨g', hg', hfolds⟩ := h.exists_subtree?_of_free hg hfree
    exact ⟨g', hg', hfolds.survives hfree⟩
  · rintro ⟨g', hg', hsurvives⟩ hfree
    obtain ⟨g₀, hg₀, hfolds⟩ := h.exists_subtree? hg'
    cases hg.symm.trans hg₀
    have hatom := hfolds.isAtom_of_free hfree
    rw [hsurvives.isAtom hop] at hatom
    cases hatom

theorem Folds.eq_ofFloat {e f : Expr} (h : Folds e f) (hwf : e.WellFormed) (hop : e.isAtom = false)
    (he : e.free = []) : ∃ x, e.value = .ok x ∧ f = ofFloat x := by
  obtain ⟨g, hg, -, hvalue, -⟩ := keeps_fold hwf
  cases (fold_eq_of_folds h).symm.trans hg
  have hatom := h.isAtom_of_free he
  cases h with
  | leaf a => cases hop
  | unaryValue h hx hy => exact ⟨_, hvalue.symm, rfl⟩
  | unary h hf => cases hatom
  | binaryValue hl hr hx hy hz => exact ⟨_, hvalue.symm, rfl⟩
  | binary hl hr h => cases hatom

theorem isAtom_bind (m : Bindings) {e : Expr} (h : e.isAtom = false) :
    (e.bind m).1.isAtom = false := by
  cases e with
  | atom a => cases h
  | unary op e => rfl
  | binary op l r => rfl

theorem report_of_free {settings : Settings} {source : String} {e : Expr}
    (hfolds : settings.folds = true) (hparse : parse source = .ok e) (hop : e.isAtom = false)
    (hfree : (e.bind settings.bindings).1.free = []) :
    ∃ x, (e.bind settings.bindings).1.value = .ok x ∧
      settings.report source (parse source) = "[Echo] " ++ source ++
        "\n[Parse] " ++ Decimal.writeFloat x ++ "\n[Eval] " ++ Decimal.writeFloat x := by
  have hwf := wellFormed_of_parse hparse
  have hbound := wellFormed_bind settings.bindings hwf
  obtain ⟨f, hf⟩ := exists_folds hbound
  obtain ⟨x, hx, rfl⟩ := hf.eq_ofFloat hbound (isAtom_bind _ hop) hfree
  obtain ⟨tree, y, htree, hy, hreport⟩ := ofExpr_of_wellFormed hwf settings source
  cases hx.symm.trans hy
  rw [Report.shown, if_pos hfolds, fold_eq_of_folds hf] at htree
  cases htree
  refine ⟨x, hx, ?_⟩
  rw [hparse]
  exact hreport

/-- In the fold of a tree each operation has a symbol without a value below it. An operation of the
tree stands at its place in the fold, with its operands folded, just if it has such a symbol below
it, and these symbols are the same from left to right. An operation without them folds to the number
that is its value, as it is written, so that with folding a report shows it twice. -/
theorem fold_normal {e : Expr} (h : e.WellFormed) :
    ∃ f, e.fold = .ok f ∧
      (∀ path g, f.subtree? path = some g → g.isAtom = false → g.free ≠ []) ∧
      (∀ path g, e.subtree? path = some g → g.isAtom = false →
        (g.free ≠ [] ↔ ∃ g', f.subtree? path = some g' ∧ Survives g g')) ∧
      f.free = e.free ∧
      (e.isAtom = false → e.free = [] →
        ∃ x, e.value = .ok x ∧ f = atom (.number ⟨Decimal.writeFloat x, x⟩)) ∧
      ∀ (settings : Settings) (source : String), settings.folds = true → parse source = .ok e →
        e.isAtom = false → (e.bind settings.bindings).1.free = [] →
        ∃ x, (e.bind settings.bindings).1.value = .ok x ∧
          settings.report source (parse source) = "[Echo] " ++ source ++
            "\n[Parse] " ++ Decimal.writeFloat x ++ "\n[Eval] " ++ Decimal.writeFloat x := by
  obtain ⟨f, hf⟩ := exists_folds h
  refine ⟨f, fold_eq_of_folds hf, ?_, fun path g => hf.survives_iff, hf.free, hf.eq_ofFloat h,
    fun settings source => report_of_free⟩
  intro path g hg hop
  obtain ⟨g₀, hg₀, hfolds⟩ := hf.exists_subtree? hg
  exact hfolds.free_ne_nil hop

theorem fold_normal_sum :
    let x := atom (.symbol (.ofName "x"))
    let sum := binary .plus (atom (.number ⟨"1", 1.0⟩)) (atom (.number ⟨"2", 2.0⟩))
    let product := binary .times x sum
    let e := binary .plus product (unary .factorial (atom (.number ⟨"3", 3.0⟩)))
    let source := "x*(1+2)+3!"
    let settings : Settings := ⟨Bindings.ofPairs [("x", 2.0)], true⟩
    parse source = .ok e ∧ e.WellFormed ∧ (∃ f, e.fold = .ok f ∧ f.free = [.ofName "x"] ∧
      e.subtree? [0] = some product ∧ product.free ≠ [] ∧
      (∃ g, f.subtree? [0] = some g ∧ Survives product g) ∧
      e.subtree? [0, 1] = some sum ∧ sum.free = [] ∧
      ¬ ∃ g, f.subtree? [0, 1] = some g ∧ Survives sum g) ∧
    settings.folds = true ∧ (e.bind settings.bindings).1.free = [] ∧
      (e.bind settings.bindings).1.value = .ok 12.0 ∧
      settings.report source (parse source) = "[Echo] " ++ source ++
        "\n[Parse] " ++ Decimal.writeFloat 12.0 ++ "\n[Eval] " ++ Decimal.writeFloat 12.0 := by
  intro x sum product e source settings
  have hparse : parse source = .ok e := by decide +kernel
  have hwf := wellFormed_of_parse hparse
  have hbound : (e.bind settings.bindings).1.free = [] := by decide +kernel
  have hvalue : (e.bind settings.bindings).1.value = .ok 12.0 := by decide +kernel
  obtain ⟨f, hf, -, hsurvives, hfree, -, hreport⟩ := fold_normal hwf
  obtain ⟨y, hy, hreport⟩ := hreport settings source rfl hparse rfl hbound
  cases hvalue.symm.trans hy
  have hproduct : product.free ≠ [] := by decide
  have hsum : ¬ sum.free ≠ [] := by decide
  exact ⟨hparse, hwf, ⟨f, hf, hfree, rfl, hproduct, (hsurvives [0] product rfl rfl).1 hproduct, rfl,
    rfl, mt (hsurvives [0, 1] sum rfl rfl).2 hsum⟩, rfl, hbound, hvalue, hreport⟩

end Expr

end Formula
