import Formula.Proofs.Folding.NormalForm

namespace Formula.Expr

inductive Steps : Expr → Expr → Prop
  | leaf (a : Atom) : Steps (atom a) (atom a)
  | unaryValue {op : Operator} {e : Expr} {x y : Float} (hx : e.resolved? = some x)
      (hy : op.apply [x] = .ok y) : Steps (unary op e) (ofFloat y)
  | unary {op : Operator} {e s : Expr} (he : e.resolved? = none) (h : Steps e s) :
      Steps (unary op e) (unary op s)
  | binaryValue {op : Operator} {l r : Expr} {x y z : Float} (hx : l.resolved? = some x)
      (hy : r.resolved? = some y) (hz : op.apply [x, y] = .ok z) :
      Steps (binary op l r) (ofFloat z)
  | binary {op : Operator} {l l' r r' : Expr} (h : l.resolved? = none ∨ r.resolved? = none)
      (hl : Steps l l') (hr : Steps r r') : Steps (binary op l r) (binary op l' r')

theorem step_eq_of_steps {e s : Expr} (h : Steps e s) : e.step = .ok s := by
  induction h with
  | leaf a => rfl
  | @unaryValue op e x y hx hy =>
    rw [step, collapseUnary, hx]
    simp only [hy, Except.map]
  | @unary op e s he h ih =>
    rw [step, collapseUnary, he, ih]
    rfl
  | @binaryValue op l r x y z hx hy hz =>
    rw [step, collapseBinary, hx, hy]
    simp only [hz, Except.map]
  | @binary op l l' r r' h hl hr ihl ihr =>
    rw [step, collapseBinary, ihl, ihr]
    split
    · next hx hy => simp [hx, hy] at h
    · rfl

theorem exists_steps {e : Expr} (h : e.WellFormed) : ∃ s, Steps e s := by
  induction e with
  | atom a => exact ⟨atom a, .leaf a⟩
  | unary op e ih =>
    cases hx : e.resolved? with
    | none =>
      obtain ⟨s, hs⟩ := ih h.2
      exact ⟨_, .unary hx hs⟩
    | some x =>
      obtain ⟨y, hy⟩ : ∃ y, op.apply [x] = .ok y := Operator.exists_apply h.1
      exact ⟨_, .unaryValue hx hy⟩
  | binary op l r ihl ihr =>
    obtain ⟨l', hl⟩ := ihl h.2.1
    obtain ⟨r', hr⟩ := ihr h.2.2
    cases hx : l.resolved? with
    | none => exact ⟨_, .binary (Or.inl hx) hl hr⟩
    | some x =>
      cases hy : r.resolved? with
      | none => exact ⟨_, .binary (Or.inr hy) hl hr⟩
      | some y =>
        obtain ⟨z, hz⟩ : ∃ z, op.apply [x, y] = .ok z := Operator.exists_apply h.1
        exact ⟨_, .binaryValue hx hy hz⟩

theorem Steps.wellFormed {e s : Expr} (h : Steps e s) (he : e.WellFormed) : s.WellFormed := by
  induction h with
  | leaf a => trivial
  | unaryValue hx hy => trivial
  | unary hx h ih => exact ⟨he.1, ih he.2⟩
  | binaryValue hx hy hz => trivial
  | binary h hl hr ihl ihr => exact ⟨he.1, ihl he.2.1, ihr he.2.2⟩

theorem Steps.folds {e s f : Expr} (h : Steps e s) (hf : Folds s f) : Folds e f := by
  induction h generalizing f with
  | leaf a => exact hf
  | unaryValue hx hy =>
    cases hf
    exact .unaryValue (folds_of_resolved? hx) hx hy
  | unary he h ih =>
    cases hf with
    | unaryValue hf hx hy => exact .unaryValue (ih hf) hx hy
    | unary hf hx => exact .unary (ih hf) hx
  | binaryValue hx hy hz =>
    cases hf
    exact .binaryValue (folds_of_resolved? hx) (folds_of_resolved? hy) hx hy hz
  | binary h hl hr ihl ihr =>
    cases hf with
    | binaryValue hfl hfr hx hy hz => exact .binaryValue (ihl hfl) (ihr hfr) hx hy hz
    | binary hfl hfr hnone => exact .binary (ihl hfl) (ihr hfr) hnone

theorem Steps.free {e s : Expr} (h : Steps e s) : s.free = e.free := by
  induction h with
  | leaf a => rfl
  | unaryValue hx hy => rw [free_ofFloat, free_unary, free_of_resolved? hx]
  | unary he h ih => exact ih
  | binaryValue hx hy hz => rw [free_ofFloat, free_binary_of_resolved? hx hy]
  | binary h hl hr ihl ihr => rw [free_binary, free_binary, ihl, ihr]

/-- How many operations that can be computed stand above each other, at most. -/
def levels : Expr → Nat
  | atom _ => 0
  | unary op e => e.levels + if (unary op e).free = [] then 1 else 0
  | binary op l r => max l.levels r.levels + if (binary op l r).free = [] then 1 else 0

theorem levels_pos {e : Expr} (h : e.free = []) (hnone : e.resolved? = none) : 0 < e.levels := by
  cases e with
  | atom a =>
    obtain ⟨x, hx⟩ := resolved?_atom h
    rw [hnone] at hx
    cases hx
  | unary op e =>
    rw [levels, if_pos h]
    exact Nat.succ_pos _
  | binary op l r =>
    rw [levels, if_pos h]
    exact Nat.succ_pos _

theorem levels_of_resolved? {e : Expr} {x : Float} (h : e.resolved? = some x) : e.levels = 0 := by
  obtain ⟨a, rfl, -⟩ := eq_atom_of_resolved? h
  rfl

/-- Each step takes one level away, as long as there is one. -/
theorem Steps.levels {e s : Expr} (h : Steps e s) : s.levels = e.levels - 1 := by
  -- a step keeps the symbols without a value, so each operation that stays counts as before
  induction h with
  | leaf a => rfl
  | @unaryValue op e x y hx hy =>
    have hfree : (Expr.unary op e).free = [] := (free_unary op e).trans (free_of_resolved? hx)
    rw [Expr.levels, levels_of_resolved? hx, if_pos hfree]
    rfl
  | @unary op e s he h ih =>
    have hfree : (Expr.unary op s).free = (Expr.unary op e).free := h.free
    rw [Expr.levels, Expr.levels, hfree, ih]
    split
    · next hnil =>
      have hpos : 0 < e.levels := levels_pos hnil he
      omega
    · rfl
  | @binaryValue op l r x y z hx hy hz =>
    have hfree : (Expr.binary op l r).free = [] := free_binary_of_resolved? hx hy
    rw [Expr.levels, levels_of_resolved? hx, levels_of_resolved? hy, if_pos hfree]
    rfl
  | @binary op l l' r r' h hl hr ihl ihr =>
    have hfree : (Expr.binary op l' r').free = (Expr.binary op l r).free := by
      rw [free_binary, free_binary, hl.free, hr.free]
    rw [Expr.levels, Expr.levels, hfree, ihl, ihr]
    split
    · next hnil =>
      obtain ⟨hfreel, hfreer⟩ := free_binary_eq_nil.1 hnil
      have hpos : 0 < l.levels ∨ 0 < r.levels := h.imp (levels_pos hfreel) (levels_pos hfreer)
      omega
    · omega

theorem folds_self {e : Expr} (h : e.levels = 0) : Folds e e ∧ Steps e e := by
  induction e with
  | atom a => exact ⟨.leaf a, .leaf a⟩
  | unary op e ih =>
    rw [levels] at h
    split at h
    · omega
    · next hfree =>
      obtain ⟨hfolds, hsteps⟩ := ih h
      have hnone : e.resolved? = none := resolved?_eq_none hfree
      exact ⟨.unary hfolds hnone, .unary hnone hsteps⟩
  | binary op l r ihl ihr =>
    rw [levels] at h
    split at h
    · omega
    · next hfree =>
      obtain ⟨hfoldsl, hstepsl⟩ := ihl (by omega)
      obtain ⟨hfoldsr, hstepsr⟩ := ihr (by omega)
      have hnone : l.resolved? = none ∨ r.resolved? = none := by
        rw [free_binary_eq_nil, not_and_or] at hfree
        exact hfree.imp resolved?_eq_none resolved?_eq_none
      exact ⟨.binary hfoldsl hfoldsr hnone, .binary hnone hstepsl hstepsr⟩

theorem Folds.levels {e f : Expr} (h : Folds e f) : f.levels = 0 := by
  induction h with
  | leaf a => rfl
  | unaryValue h hx hy ih => rfl
  | unary h hf ih => rw [Expr.levels, if_neg ((Folds.unary h hf).free_ne_nil rfl), ih]
  | binaryValue hl hr hx hy hz ihl ihr => rfl
  | binary hl hr h ihl ihr =>
    rw [Expr.levels, if_neg ((Folds.binary hl hr h).free_ne_nil rfl), ihl, ihr]
    rfl

theorem levels_lt_depth (e : Expr) : e.levels < e.depth := by
  induction e with
  | atom a => exact Nat.zero_lt_one
  | unary op e ih =>
    rw [levels, depth]
    split <;> omega
  | binary op l r ihl ihr =>
    rw [levels, depth]
    split <;> omega

theorem depth_eq_levels {e : Expr} (h : e.free = []) : e.depth = e.levels + 1 := by
  induction e with
  | atom a => rfl
  | unary op e ih =>
    rw [levels, if_pos h, depth, ih h, Nat.add_comm]
  | binary op l r ihl ihr =>
    obtain ⟨hfreel, hfreer⟩ := free_binary_eq_nil.1 h
    rw [levels, if_pos h, depth, ihl hfreel, ihr hfreer]
    omega

theorem isAtom_iff_depth {e : Expr} : e.isAtom = true ↔ e.depth = 1 := by
  cases e with
  | atom a => simp [isAtom, depth]
  | unary op e =>
    have hpos := e.levels_lt_depth
    simp only [isAtom, depth, Bool.false_eq_true, false_iff]
    omega
  | binary op l r =>
    have hpos := l.levels_lt_depth
    simp only [isAtom, depth, Bool.false_eq_true, false_iff]
    omega

def steps (e : Expr) : Nat → Except Fault Expr
  | 0 => .ok e
  | n + 1 => do
    let s ← e.step
    s.steps n

theorem steps_succ {e s : Expr} (h : Steps e s) (n : Nat) : e.steps (n + 1) = s.steps n := by
  rw [steps, step_eq_of_steps h]
  rfl

theorem Folds.unique {e f g : Expr} (hf : Folds e f) (hg : Folds e g) : f = g :=
  Except.ok.inj ((fold_eq_of_folds hf).symm.trans (fold_eq_of_folds hg))

theorem steps_eq_of_folds {e f : Expr} (he : e.WellFormed) (hf : Folds e f) {n : Nat}
    (hn : e.levels ≤ n) : e.steps n = .ok f := by
  -- a tree without levels is its own fold, and a step takes a level away but keeps the fold
  induction n generalizing e with
  | zero => rw [steps, hf.unique (folds_self (Nat.le_zero.1 hn)).1]
  | succ n ih =>
    obtain ⟨s, hs⟩ := exists_steps he
    obtain ⟨g, hg⟩ := exists_folds (hs.wellFormed he)
    obtain rfl := (hs.folds hg).unique hf
    have hlevels := hs.levels
    rw [steps_succ hs]
    exact ih (hs.wellFormed he) hg (by omega)

/-- What a number of steps leaves has that number of levels less, and the same symbols without a
value. -/
theorem exists_steps_levels {e : Expr} (he : e.WellFormed) (n : Nat) :
    ∃ s, e.steps n = .ok s ∧ s.WellFormed ∧ s.levels = e.levels - n ∧ s.free = e.free := by
  induction n generalizing e with
  | zero => exact ⟨e, rfl, he, rfl, rfl⟩
  | succ n ih =>
    obtain ⟨s, hs⟩ := exists_steps he
    obtain ⟨t, ht, hwf, hlevels, hfree⟩ := ih (hs.wellFormed he)
    refine ⟨t, (steps_succ hs n).trans ht, hwf, ?_, hfree.trans hs.free⟩
    rw [hlevels, hs.levels]
    omega

theorem Steps.depth {e s : Expr} (h : Steps e s) (hfree : e.free = []) (hop : e.isAtom = false) :
    s.depth + 1 = e.depth := by
  have hlevels := h.levels
  have he := depth_eq_levels hfree
  have hs := depth_eq_levels (h.free.trans hfree)
  have hdepth : e.depth ≠ 1 := mt isAtom_iff_depth.2 (by simp [hop])
  omega

/-- Folding is what steps come to: a tree is its fold after one step less than it is deep, or after
more, a step does not change what it folds to, and neither a step nor a fold changes a fold. Where
every symbol has a value, each step makes the tree less deep by one until it is a leaf, so that none
of these steps can be spared. -/
theorem steps_fold {e : Expr} (h : e.WellFormed) :
    ∃ f, e.fold = .ok f ∧ (∀ n, e.depth - 1 ≤ n → e.steps n = .ok f) ∧
      (∃ s, e.step = .ok s ∧ s.fold = .ok f) ∧ f.step = .ok f ∧ f.fold = .ok f ∧
      (e.free = [] → ∀ n, ∃ s, e.steps n = .ok s ∧ (s.isAtom = true ↔ e.depth - 1 ≤ n) ∧
        (s.isAtom = false → ∃ t, s.step = .ok t ∧ t.depth + 1 = s.depth)) := by
  obtain ⟨f, hf⟩ := exists_folds h
  obtain ⟨s, hs⟩ := exists_steps h
  obtain ⟨g, hg⟩ := exists_folds (hs.wellFormed h)
  obtain rfl := (hs.folds hg).unique hf
  obtain ⟨hself, hstep⟩ := folds_self hf.levels
  refine ⟨g, fold_eq_of_folds hf, ?_, ⟨s, step_eq_of_steps hs, fold_eq_of_folds hg⟩,
    step_eq_of_steps hstep, fold_eq_of_folds hself, ?_⟩
  · intro n hn
    have hlevels := e.levels_lt_depth
    exact steps_eq_of_folds h hf (by omega)
  · intro hfree n
    obtain ⟨t, ht, hwf, hlevels, hfreet⟩ := exists_steps_levels h n
    refine ⟨t, ht, ?_, ?_⟩
    · rw [isAtom_iff_depth, depth_eq_levels (hfreet.trans hfree), depth_eq_levels hfree, hlevels]
      omega
    · intro hop
      obtain ⟨u, hu⟩ := exists_steps hwf
      exact ⟨u, step_eq_of_steps hu, hu.depth (hfreet.trans hfree) hop⟩

theorem steps_fold_sum :
    let x := atom (.symbol ⟨"x", some 5.0⟩)
    let e := binary .plus (binary .times (ofFloat 2.0) x)
      (unary .minus (unary .factorial (ofFloat 3.0)))
    e.WellFormed ∧ e.free = [] ∧ e.depth = 4 ∧ ∃ f, e.fold = .ok f ∧ f.render = "4" ∧
      e.steps 3 = .ok f ∧ f.step = .ok f ∧ f.fold = .ok f ∧
      ∃ s, e.steps 2 = .ok s ∧ s.isAtom = false ∧ ∃ t, s.step = .ok t ∧ t.depth + 1 = s.depth := by
  intro x e
  have he : e.WellFormed := by
    simp [e, x, ofFloat, WellFormed, Operator.takes, Operator.unary?, Operator.binary?]
  have hfree : e.free = [] := rfl
  obtain ⟨f, hf, hsteps, -, hstep, hfold, hbound⟩ := steps_fold he
  obtain ⟨s, hs, hatom, hnext⟩ := hbound hfree 2
  have hop : s.isAtom = false := Bool.eq_false_iff.2 (mt hatom.1 (by decide))
  have hrender : (e.fold.map render).toOption = some "4" := by decide +kernel
  rw [hf] at hrender
  exact ⟨he, hfree, rfl, f, hf, Option.some.inj hrender, hsteps 3 (by decide), hstep, hfold, s, hs,
    hop, hnext hop⟩

end Formula.Expr
