import Formula.Expr.Evaluation

namespace Formula

namespace Operator

/-- The formula of an operator for so many operands, which reads each of them at its place. It has
no value where it reads a place at which there is none. -/
def formula? : Operator → Nat → Option (List Float → Option Float)
  | plus, 2 => some fun xs => do return (← xs[0]?) + (← xs[1]?)
  | minus, 1 => some fun xs => do return -(← xs[0]?)
  | minus, 2 => some fun xs => do return (← xs[0]?) - (← xs[1]?)
  | times, 2 => some fun xs => do return (← xs[0]?) * (← xs[1]?)
  | divide, 2 => some fun xs => do return (← xs[0]?) / (← xs[1]?)
  | power, 2 => some fun xs => do return Float.pow (← xs[0]?) (← xs[1]?)
  | sqrt, 1 => some fun xs => do return Float.sqrt (← xs[0]?)
  | sqrt, 2 => some fun xs => do return Float.pow (← xs[0]?) (1.0 / (← xs[1]?))
  | sin, 1 => some fun xs => do return Float.sin (← xs[0]?)
  | cos, 1 => some fun xs => do return Float.cos (← xs[0]?)
  | tan, 1 => some fun xs => do return Float.tan (← xs[0]?)
  | factorial, 1 => some fun xs => do return Formula.factorial (← xs[0]?)
  | _, _ => none

theorem formula?_isSome (op : Operator) (n : Nat) : (op.formula? n).isSome = op.takes n := by
  match n with
  | 0 => cases op <;> rfl
  | 1 => cases op <;> rfl
  | 2 => cases op <;> rfl
  | n + 3 => cases op <;> rfl

theorem apply_eq_of_formula? {op : Operator} {f : List Float → Option Float} {xs : List Float}
    (h : op.formula? xs.length = some f) : ∃ x, f xs = some x ∧ op.apply xs = .ok x := by
  match xs with
  | [] => cases op <;> cases h
  | [x] => cases op <;> cases h <;> exact ⟨_, rfl, rfl⟩
  | [x, y] => cases op <;> cases h <;> exact ⟨_, rfl, rfl⟩
  | x :: y :: z :: xs => cases op <;> cases h

theorem exists_apply {op : Operator} {xs : List Float} (h : op.takes xs.length = true) :
    ∃ x, op.apply xs = .ok x := by
  rw [← formula?_isSome, Option.isSome_iff_exists] at h
  obtain ⟨f, hf⟩ := h
  obtain ⟨x, -, hx⟩ := apply_eq_of_formula? hf
  exact ⟨x, hx⟩

theorem length_of_takes {op : Operator} {n : Nat} (h : op.takes n = true) : n = 1 ∨ n = 2 := by
  match n with
  | 0 => cases h
  | 1 => exact Or.inl rfl
  | 2 => exact Or.inr rfl
  | n + 3 => cases h

end Operator

namespace Expr

/-- What comes of computing in a tree is well formed, and has the values of the tree. -/
def Keeps (e : Expr) (r : Except Fault Expr) : Prop :=
  ∃ f, r = .ok f ∧ f.WellFormed ∧ f.value = e.value ∧ f.strictValue = e.strictValue

theorem value_unary {op : Operator} {e : Expr} {x : Float} (h : e.value = .ok x) :
    (unary op e).value = op.apply [x] := by
  rw [value, h]
  rfl

theorem value_binary {op : Operator} {l r : Expr} {x y : Float} (hl : l.value = .ok x)
    (hr : r.value = .ok y) : (binary op l r).value = op.apply [x, y] := by
  rw [value, hl, hr]
  rfl

theorem strictValue_unary {op : Operator} {e : Expr} {x : Float} (h : e.strictValue = .ok x) :
    (unary op e).strictValue = op.apply [x] := by
  rw [strictValue, h]
  rfl

theorem strictValue_binary {op : Operator} {l r : Expr} {x y : Float}
    (hl : l.strictValue = .ok x) (hr : r.strictValue = .ok y) :
    (binary op l r).strictValue = op.apply [x, y] := by
  rw [strictValue, hl, hr]
  rfl

theorem value_unary_congr {op : Operator} {e f : Expr} (h : f.value = e.value) :
    (unary op f).value = (unary op e).value := by
  simp only [value, h]

theorem strictValue_unary_congr {op : Operator} {e f : Expr} (h : f.strictValue = e.strictValue) :
    (unary op f).strictValue = (unary op e).strictValue := by
  simp only [strictValue, h]

theorem value_binary_congr {op : Operator} {l l' r r' : Expr} (hl : l'.value = l.value)
    (hr : r'.value = r.value) : (binary op l' r').value = (binary op l r).value := by
  simp only [value, hl, hr]

theorem strictValue_binary_congr {op : Operator} {l l' r r' : Expr}
    (hl : l'.strictValue = l.strictValue) (hr : r'.strictValue = r.strictValue) :
    (binary op l' r').strictValue = (binary op l r).strictValue := by
  simp only [strictValue, hl, hr]

theorem values_of_resolved? {e : Expr} {x : Float} (h : e.resolved? = some x) :
    e.value = .ok x ∧ e.strictValue = .ok x := by
  cases e with
  | unary op e => cases h
  | binary op l r => cases h
  | atom a =>
    cases a with
    | number n =>
      cases h
      exact ⟨rfl, rfl⟩
    | symbol s =>
      obtain ⟨name, bound⟩ := s
      cases bound with
      | none => cases h
      | some y =>
        cases h
        exact ⟨rfl, rfl⟩

theorem keeps_ofFloat {e : Expr} {x : Float} (hvalue : e.value = .ok x)
    (hstrict : e.strictValue = .ok x) : Keeps e (.ok (ofFloat x)) :=
  ⟨ofFloat x, rfl, trivial, hvalue.symm, hstrict.symm⟩

theorem keeps_collapseUnary {op : Operator} {e : Expr} {r : Except Fault Expr}
    (hop : op.takes 1 = true) (hr : Keeps (unary op e) r) :
    Keeps (unary op e) (collapseUnary op e r) := by
  rw [collapseUnary]
  cases hx : e.resolved? with
  | none => exact hr
  | some x =>
    obtain ⟨hvalue, hstrict⟩ := values_of_resolved? hx
    obtain ⟨y, hy⟩ : ∃ y, op.apply [x] = .ok y := Operator.exists_apply hop
    simp only [hy, Except.map]
    apply keeps_ofFloat
    · exact (value_unary hvalue).trans hy
    · exact (strictValue_unary hstrict).trans hy

theorem keeps_collapseBinary {op : Operator} {l r : Expr} {rest : Except Fault Expr}
    (hop : op.takes 2 = true) (hrest : Keeps (binary op l r) rest) :
    Keeps (binary op l r) (collapseBinary op l r rest) := by
  rw [collapseBinary]
  split
  · next x y hx hy =>
    obtain ⟨hlvalue, hlstrict⟩ := values_of_resolved? hx
    obtain ⟨hrvalue, hrstrict⟩ := values_of_resolved? hy
    obtain ⟨z, hz⟩ : ∃ z, op.apply [x, y] = .ok z := Operator.exists_apply hop
    simp only [hz, Except.map]
    apply keeps_ofFloat
    · exact (value_binary hlvalue hrvalue).trans hz
    · exact (strictValue_binary hlstrict hrstrict).trans hz
  · exact hrest

theorem keeps_step {e : Expr} (h : e.WellFormed) : Keeps e e.step := by
  induction e with
  | atom a => exact ⟨atom a, rfl, h, rfl, rfl⟩
  | unary op e ih =>
    obtain ⟨f, hf, hwf, hvalue, hstrict⟩ := ih h.2
    rw [step, hf]
    apply keeps_collapseUnary h.1
    exact ⟨unary op f, rfl, ⟨h.1, hwf⟩, value_unary_congr hvalue, strictValue_unary_congr hstrict⟩
  | binary op l r ihl ihr =>
    obtain ⟨l', hl, hwl, hlvalue, hlstrict⟩ := ihl h.2.1
    obtain ⟨r', hr, hwr, hrvalue, hrstrict⟩ := ihr h.2.2
    rw [step, hl, hr]
    apply keeps_collapseBinary h.1
    exact ⟨binary op l' r', rfl, ⟨h.1, hwl, hwr⟩, value_binary_congr hlvalue hrvalue,
      strictValue_binary_congr hlstrict hrstrict⟩

theorem Keeps.of_values {e f : Expr} {r : Except Fault Expr} (h : Keeps f r)
    (hvalue : f.value = e.value) (hstrict : f.strictValue = e.strictValue) : Keeps e r := by
  obtain ⟨g, hg, hwg, hgvalue, hgstrict⟩ := h
  exact ⟨g, hg, hwg, hgvalue.trans hvalue, hgstrict.trans hstrict⟩

theorem keeps_fold {e : Expr} (h : e.WellFormed) : Keeps e e.fold := by
  induction e with
  | atom a => exact ⟨atom a, rfl, h, rfl, rfl⟩
  | unary op e ih =>
    obtain ⟨f, hf, hwf, hvalue, hstrict⟩ := ih h.2
    -- the operand is folded first, so it is the new operation that is collapsed
    have hfolded : Keeps (unary op f) (collapseUnary op f (.ok (unary op f))) :=
      keeps_collapseUnary h.1 ⟨unary op f, rfl, ⟨h.1, hwf⟩, rfl, rfl⟩
    rw [fold, hf]
    exact hfolded.of_values (value_unary_congr hvalue) (strictValue_unary_congr hstrict)
  | binary op l r ihl ihr =>
    obtain ⟨l', hl, hwl, hlvalue, hlstrict⟩ := ihl h.2.1
    obtain ⟨r', hr, hwr, hrvalue, hrstrict⟩ := ihr h.2.2
    have hfolded : Keeps (binary op l' r') (collapseBinary op l' r' (.ok (binary op l' r'))) :=
      keeps_collapseBinary h.1 ⟨binary op l' r', rfl, ⟨h.1, hwl, hwr⟩, rfl, rfl⟩
    rw [fold, hl, hr]
    exact hfolded.of_values (value_binary_congr hlvalue hrvalue)
      (strictValue_binary_congr hlstrict hrstrict)

theorem exists_value {e : Expr} (h : e.WellFormed) : ∃ x, e.value = .ok x := by
  induction e with
  | atom a => exact ⟨a.value, rfl⟩
  | unary op e ih =>
    obtain ⟨x, hx⟩ := ih h.2
    obtain ⟨y, hy⟩ : ∃ y, op.apply [x] = .ok y := Operator.exists_apply h.1
    exact ⟨y, (value_unary hx).trans hy⟩
  | binary op l r ihl ihr =>
    obtain ⟨x, hx⟩ := ihl h.2.1
    obtain ⟨y, hy⟩ := ihr h.2.2
    obtain ⟨z, hz⟩ : ∃ z, op.apply [x, y] = .ok z := Operator.exists_apply h.1
    exact ⟨z, (value_binary hx hy).trans hz⟩

/-- Where a strict value is wanted, nothing but a symbol without a value is in the way. -/
theorem exists_strictValue {e : Expr} (h : e.WellFormed) :
    (∃ x, e.strictValue = .ok x) ∨ ∃ name, e.strictValue = .error (.unboundVariable name) := by
  induction e with
  | atom a =>
    cases a with
    | number n => exact Or.inl ⟨n.value, rfl⟩
    | symbol s =>
      obtain ⟨name, bound⟩ := s
      cases bound with
      | none => exact Or.inr ⟨name, rfl⟩
      | some x => exact Or.inl ⟨x, rfl⟩
  | unary op e ih =>
    obtain ⟨x, hx⟩ | ⟨name, hname⟩ := ih h.2
    · obtain ⟨y, hy⟩ : ∃ y, op.apply [x] = .ok y := Operator.exists_apply h.1
      exact Or.inl ⟨y, (strictValue_unary hx).trans hy⟩
    · exact Or.inr ⟨name, by rw [strictValue, hname]; rfl⟩
  | binary op l r ihl ihr =>
    obtain ⟨x, hx⟩ | ⟨name, hname⟩ := ihl h.2.1
    · obtain ⟨y, hy⟩ | ⟨name, hname⟩ := ihr h.2.2
      · obtain ⟨z, hz⟩ : ∃ z, op.apply [x, y] = .ok z := Operator.exists_apply h.1
        exact Or.inl ⟨z, (strictValue_binary hx hy).trans hz⟩
      · exact Or.inr ⟨name, by rw [strictValue, hx, hname]; rfl⟩
    · exact Or.inr ⟨name, by rw [strictValue, hname]; rfl⟩

/-- Folding a well-formed tree and computing one level of it both succeed, and both leave the value
and the strict value as they are, down to the name of the first symbol without a value. -/
theorem fold_step_values {e : Expr} (h : e.WellFormed) :
    ∃ f s x, e.fold = .ok f ∧ e.step = .ok s ∧ e.value = .ok x ∧ f.value = .ok x ∧
      s.value = .ok x ∧ f.strictValue = e.strictValue ∧ s.strictValue = e.strictValue := by
  obtain ⟨f, hf, -, hfvalue, hfstrict⟩ := keeps_fold h
  obtain ⟨s, hs, -, hsvalue, hsstrict⟩ := keeps_step h
  obtain ⟨x, hx⟩ := exists_value h
  exact ⟨f, s, x, hf, hs, hx, hfvalue.trans hx, hsvalue.trans hx, hfstrict, hsstrict⟩

theorem fold_step_values_partly_bound :
    let x := atom (.symbol ⟨"x", some 2.0⟩)
    let e := binary .times (binary .plus (ofFloat 1.0) x)
      (binary .minus (unary .factorial (atom (.symbol (.ofName "y")))) (unary .sqrt x))
    e.WellFormed ∧ e.strictValue = .error (.unboundVariable "y") ∧
      ∃ f s v, e.fold = .ok f ∧ e.step = .ok s ∧ e.value = .ok v ∧ f.value = .ok v ∧
        s.value = .ok v ∧ f.strictValue = e.strictValue ∧ s.strictValue = e.strictValue := by
  intro x e
  have he : e.WellFormed := by
    simp [e, x, ofFloat, WellFormed, Operator.takes, Operator.unary?, Operator.binary?]
  exact ⟨he, rfl, fold_step_values he⟩

end Expr

end Formula
