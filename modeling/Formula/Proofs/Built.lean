import Formula.Proofs.Climbing.Source
import Formula.Proofs.Evaluation
import Formula.Report

namespace Formula.Expr

/-- The trees that come about when reading, building operations, binding, stepping and folding
follow each other in any order. -/
inductive Built : Expr → Prop
  | leaf (a : Atom) : Built (atom a)
  | parsed {source : String} {e : Expr} (h : parse source = .ok e) : Built e
  | read {s : TokenStream} {least : Float} {e : Expr} (h : (s.readExpr least).1 = .ok e) : Built e
  | operated {op : Operator} {es : List Expr} {e : Expr} (hs : ∀ e ∈ es, Built e)
      (h : operation op es = .ok e) : Built e
  | bound {e : Expr} (h : Built e) (m : Bindings) : Built (e.bind m).1
  | stepped {e f : Expr} (h : Built e) (hf : e.step = .ok f) : Built f
  | folded {e f : Expr} (h : Built e) (hf : e.fold = .ok f) : Built f

def operations : Expr → List (Operator × List Expr)
  | atom _ => []
  | unary op e => (op, [e]) :: e.operations
  | binary op l r => (op, [l, r]) :: (l.operations ++ r.operations)

theorem wellFormed_iff_operations {e : Expr} :
    e.WellFormed ↔ ∀ o ∈ e.operations, o.1.takes o.2.length = true := by
  induction e with
  | atom a => simp [WellFormed, operations]
  | unary op e ih => simp [WellFormed, operations, ih]
  | binary op l r ihl ihr => simp [WellFormed, operations, ihl, ihr, or_imp, forall_and]

theorem bind_symbol (m : Bindings) (s : Symbol) :
    ((atom (.symbol s)).bind m).1 = atom (.symbol ⟨s.name, m[s.name]?.or s.bound⟩) := by
  rw [bind]
  cases m[s.name]? <;> rfl

theorem wellFormed_bind (m : Bindings) {e : Expr} (h : e.WellFormed) : (e.bind m).1.WellFormed := by
  induction e with
  | atom a =>
    cases a with
    | number n => trivial
    | symbol s =>
      rw [bind_symbol]
      trivial
  | unary op e ih => exact ⟨h.1, ih h.2⟩
  | binary op l r ihl ihr => exact ⟨h.1, ihl h.2.1, ihr h.2.2⟩

theorem wellFormed_of_climbs {stop : Nat} {m : Option Expr} {least : Float} {ts us : List Token}
    {e : Expr} (h : Climbs stop m least ts (.ok e) us) (hm : ∀ e₀ ∈ m, e₀.WellFormed) :
    e.WellFormed := by
  generalize hr : (Except.ok e : Except Error Expr) = r at h
  induction h generalizing e with
  | leaf ht h ih => exact ih (by simp [WellFormed]) hr
  | groupLast ht h hclose hend ih => exact ih (by simp) hr
  | group ht h hclose hend hon ih ihOn =>
    apply ihOn _ hr
    simpa using ih (by simp) rfl
  | before ht hop h hon ih ihOn =>
    apply ihOn _ hr
    simpa using ⟨Operator.takes_one_of_isBefore hop, ih (by simp) rfl⟩
  | ends ht =>
    cases hr
    exact hm _ rfl
  | cutOff ht hop hafter hp =>
    cases hr
    exact hm _ rfl
  | after ht hon ih =>
    apply ih _ hr
    simpa using ⟨rfl, hm _ rfl⟩
  | between ht hop hp htakes h hon ih ihOn =>
    apply ihOn _ hr
    simpa using ⟨htakes, hm _ rfl, ih (by simp) rfl⟩
  | _ => cases hr

theorem wellFormed_of_readExpr {s : TokenStream} {least : Float} {e : Expr}
    (h : (s.readExpr least).1 = .ok e) : e.WellFormed := by
  obtain ⟨r, us, hclimbs⟩ : ∃ r us, Climbs s.stop none least s.tokens r us := exists_climbs _ _ _
  rw [TokenStream.readExpr_of_climbs hclimbs] at h
  obtain rfl : r = .ok e := h
  exact wellFormed_of_climbs hclimbs (by simp)

theorem wellFormed_of_parse {source : String} {e : Expr} (h : parse source = .ok e) :
    e.WellFormed := by
  obtain ⟨ts, us, -, hclimbs, -⟩ := exists_climbs_of_parse h
  exact wellFormed_of_climbs hclimbs (by simp)

theorem Built.wellFormed {e : Expr} (h : Built e) : e.WellFormed := by
  induction h with
  | leaf a => trivial
  | parsed h => exact wellFormed_of_parse h
  | read h => exact wellFormed_of_readExpr h
  | operated hs h ih => exact wellFormed_of_operation ih h
  | bound h m ih => exact wellFormed_bind m ih
  | stepped h hf ih =>
    obtain ⟨s, hs, hwf, -⟩ := keeps_step ih
    cases hs.symm.trans hf
    exact hwf
  | folded h hf ih =>
    obtain ⟨f, hf', hwf, -⟩ := keeps_fold ih
    cases hf'.symm.trans hf
    exact hwf

theorem ofExpr_of_wellFormed {e : Expr} (h : e.WellFormed) (settings : Settings) (input : String) :
    ∃ tree x, Report.shown settings (e.bind settings.bindings).1 = .ok tree ∧
      (e.bind settings.bindings).1.value = .ok x ∧
      Report.ofExpr settings input e = "[Echo] " ++ input ++ "\n[Parse] " ++ tree ++
        "\n[Eval] " ++ Decimal.writeFloat x := by
  have hbound := wellFormed_bind settings.bindings h
  obtain ⟨x, hx⟩ := exists_value hbound
  obtain ⟨tree, htree⟩ :
      ∃ tree, Report.shown settings (e.bind settings.bindings).1 = .ok tree := by
    obtain ⟨f, hf, -⟩ := keeps_fold hbound
    rw [Report.shown, hf]
    cases settings.folds with
    | true => exact ⟨f.render, rfl⟩
    | false => exact ⟨_, rfl⟩
  refine ⟨tree, x, htree, hx, ?_⟩
  rw [Report.ofExpr]
  simp only [htree, hx]

theorem report_echoes (settings : Settings) (input : String) :
    ∃ rest, settings.report input (parse input) = "[Echo] " ++ input ++ rest := by
  cases h : parse input with
  | error err =>
    refine ⟨"\n       " ++ Report.carets err.span ++ "\n[Error] " ++ err.message, ?_⟩
    simp only [Settings.report, Report.ofError, String.append_assoc]
  | ok e =>
    obtain ⟨tree, x, -, -, hreport⟩ := ofExpr_of_wellFormed (wellFormed_of_parse h) settings input
    refine ⟨"\n[Parse] " ++ tree ++ "\n[Eval] " ++ Decimal.writeFloat x, ?_⟩
    simp only [Settings.report, hreport, String.append_assoc]

/-- In a tree that was built, every operation has one or two operands, and its operator has a
formula for just so many, which finds all that it reads. So the tree has a value, can be computed by
one level and as a whole, lacks a strict value only for a symbol without one, and a report on it
always comes to the tree and its value. No report leaves out the input. -/
theorem Built.answers {e : Expr} (h : Built e) :
    (∀ op es, (op, es) ∈ e.operations → (es.length = 1 ∨ es.length = 2) ∧
      ∃ f, op.formula? es.length = some f ∧
        ∀ xs : List Float, xs.length = es.length → ∃ x, f xs = some x ∧ op.apply xs = .ok x) ∧
    (∃ x, e.value = .ok x) ∧ (∃ s, e.step = .ok s) ∧ (∃ f, e.fold = .ok f) ∧
    (∀ fault, e.strictValue = .error fault → ∃ name, fault = .unboundVariable name) ∧
    ∀ settings input,
      (∃ tree x, Report.shown settings (e.bind settings.bindings).1 = .ok tree ∧
        (e.bind settings.bindings).1.value = .ok x ∧
        Report.ofExpr settings input e = "[Echo] " ++ input ++ "\n[Parse] " ++ tree ++
          "\n[Eval] " ++ Decimal.writeFloat x) ∧
      ∃ rest, settings.report input (parse input) = "[Echo] " ++ input ++ rest := by
  have hwf := h.wellFormed
  refine ⟨?_, exists_value hwf, ?_, ?_, ?_, ?_⟩
  · intro op es ho
    have htakes : op.takes es.length = true := wellFormed_iff_operations.1 hwf (op, es) ho
    refine ⟨Operator.length_of_takes htakes, ?_⟩
    rw [← Operator.formula?_isSome, Option.isSome_iff_exists] at htakes
    obtain ⟨f, hf⟩ := htakes
    refine ⟨f, hf, ?_⟩
    intro xs hxs
    rw [← hxs] at hf
    exact Operator.apply_eq_of_formula? hf
  · obtain ⟨s, hs, -⟩ := keeps_step hwf
    exact ⟨s, hs⟩
  · obtain ⟨f, hf, -⟩ := keeps_fold hwf
    exact ⟨f, hf⟩
  · intro fault hfault
    obtain ⟨x, hx⟩ | ⟨name, hname⟩ := exists_strictValue hwf
    · rw [hx] at hfault
      cases hfault
    · rw [hname] at hfault
      cases hfault
      exact ⟨name, rfl⟩
  · intro settings input
    exact ⟨ofExpr_of_wellFormed hwf settings input, report_echoes settings input⟩

theorem Built.answers_folded : ∃ e f, parse "x*2!-y" = .ok e ∧
    (e.bind (Bindings.ofPairs [("x", 3.0)])).1.fold = .ok f ∧ Built f ∧
    f.operations = [(.minus, [ofFloat 6.0, atom (.symbol (.ofName "y"))])] ∧
    (∃ g, Operator.minus.formula? 2 = some g ∧
      ∀ xs : List Float, xs.length = 2 → ∃ x, g xs = some x ∧ Operator.minus.apply xs = .ok x) ∧
    ∃ x, f.value = .ok x := by
  let x := atom (.symbol (.ofName "x"))
  let y := atom (.symbol (.ofName "y"))
  let two := atom (.number ⟨"2", 2.0⟩)
  let e := binary .minus (binary .times x (unary .factorial two)) y
  let f := binary .minus (ofFloat 6.0) y
  have he : parse "x*2!-y" = .ok e := by decide +kernel
  have hf : (e.bind (Bindings.ofPairs [("x", 3.0)])).1.fold = .ok f := by decide +kernel
  have hbuilt : Built f := ((Built.parsed he).bound _).folded hf
  obtain ⟨hoperations, hvalue, -⟩ := hbuilt.answers
  have hminus := hoperations .minus [ofFloat 6.0, y] List.mem_cons_self
  exact ⟨e, f, he, hf, hbuilt, rfl, hminus.2, hvalue⟩

end Formula.Expr
