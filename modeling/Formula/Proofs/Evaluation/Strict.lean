import Formula.Proofs.Folding.NormalForm

namespace Formula.Expr

/-- The tree with the value `x` for each symbol that has none. -/
def assignFree (x : Float) : Expr → Expr
  | atom (.number n) => atom (.number n)
  | atom (.symbol s) =>
    match s.bound with
    | some _ => atom (.symbol s)
    | none => atom (.symbol (s.assign x))
  | unary op e => unary op (e.assignFree x)
  | binary op l r => binary op (l.assignFree x) (r.assignFree x)

theorem strictValue_assignFree_zero (e : Expr) : (e.assignFree 0.0).strictValue = e.value := by
  induction e with
  | atom a =>
    cases a with
    | number n => rfl
    | symbol s =>
      obtain ⟨name, bound⟩ := s
      cases bound <;> rfl
  | unary op e ih => simp only [assignFree, strictValue, value, ih]
  | binary op l r ihl ihr => simp only [assignFree, strictValue, value, ihl, ihr]

theorem strictValue_of_free_eq_nil {e : Expr} (h : e.free = []) : e.strictValue = e.value := by
  induction e with
  | atom a =>
    obtain ⟨x, hx⟩ := resolved?_atom h
    obtain ⟨hvalue, hstrict⟩ := values_of_resolved? hx
    rw [hvalue, hstrict]
  | unary op e ih => simp only [strictValue, value, ih h]
  | binary op l r ihl ihr =>
    obtain ⟨hl, hr⟩ := free_binary_eq_nil.1 h
    simp only [strictValue, value, ihl hl, ihr hr]

/-- An operand is evaluated only if those in front of it have strict values, and no operator of a
well-formed tree fails before. -/
theorem strictValue_of_free_eq_cons {e : Expr} (hwf : e.WellFormed) {s : Symbol}
    {ss : List Symbol} (h : e.free = s :: ss) :
    e.strictValue = .error (.unboundVariable s.name) := by
  induction e generalizing ss with
  | atom a =>
    cases a with
    | number n => cases h
    | symbol t =>
      obtain ⟨name, bound⟩ := t
      cases bound <;> cases h
      rfl
  | unary op e ih =>
    rw [strictValue, ih hwf.2 h]
    rfl
  | binary op l r ihl ihr =>
    rw [free_binary] at h
    cases hl : l.free with
    | nil =>
      -- the left operand has a strict value, so that it is the right one that fails
      rw [hl, List.nil_append] at h
      obtain ⟨x, hx⟩ := exists_value hwf.2.1
      rw [strictValue, strictValue_of_free_eq_nil hl, hx, ihr hwf.2.2 h]
      rfl
    | cons t ts =>
      rw [hl, List.cons_append, List.cons.injEq] at h
      obtain ⟨rfl, -⟩ := h
      rw [strictValue, ihl hwf.2.1 hl]
      rfl

/-- Where every symbol has a value, the strict value is the value of the tree. Otherwise it fails,
with the name of the first symbol from left to right that has none. In both cases the value is what
the strict value becomes when each symbol without a value is given the value zero. -/
theorem strictValue_eq_value_or_first_free {e : Expr} (h : e.WellFormed) :
    ∃ x, e.value = .ok x ∧ (e.assignFree 0.0).strictValue = .ok x ∧
      (e.free = [] → e.strictValue = .ok x) ∧
      ∀ s ss, e.free = s :: ss → e.strictValue = .error (.unboundVariable s.name) := by
  obtain ⟨x, hx⟩ := exists_value h
  refine ⟨x, hx, ?_, ?_, ?_⟩
  · rw [strictValue_assignFree_zero, hx]
  · intro hfree
    rw [strictValue_of_free_eq_nil hfree, hx]
  · intro s ss hfree
    exact strictValue_of_free_eq_cons h hfree

theorem strictValue_of_partly_bound :
    let x := atom (.symbol ⟨"x", some 3.0⟩)
    let y := atom (.symbol (.ofName "y"))
    let z := atom (.symbol (.ofName "z"))
    let e := binary .times (unary .factorial x) (binary .minus (unary .minus y) z)
    e.WellFormed ∧ e.free = [.ofName "y", .ofName "z"] ∧
      (∃ v, e.value = .ok v ∧ (e.assignFree 0.0).strictValue = .ok v) ∧
      e.strictValue = .error (.unboundVariable "y") ∧
      (unary .factorial x).WellFormed ∧ (unary .factorial x).free = [] ∧
      ∃ v, (unary .factorial x).value = .ok v ∧ (unary .factorial x).strictValue = .ok v := by
  intro x y z e
  have he : e.WellFormed := by
    simp [e, x, y, z, WellFormed, Operator.takes, Operator.unary?, Operator.binary?]
  have hx : (unary .factorial x).WellFormed := he.2.1
  have hfree : e.free = [.ofName "y", .ofName "z"] := rfl
  have hbound : (unary .factorial x).free = [] := rfl
  obtain ⟨v, hv, hzero, -, hfirst⟩ := strictValue_eq_value_or_first_free he
  obtain ⟨w, hw, -, hstrict, -⟩ := strictValue_eq_value_or_first_free hx
  exact ⟨he, hfree, ⟨v, hv, hzero⟩, hfirst _ _ hfree, hx, hbound, w, hw, hstrict hbound⟩

end Formula.Expr
