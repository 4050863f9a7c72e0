import Formula.Proofs.Evaluation.Strict
import Formula.Proofs.Substitution

namespace Formula.Expr

/-- The operator of a tree, and how many operands it has there; an atom has neither. -/
def signature (e : Expr) : Option Operator × Nat := (e.operator?, e.operands.length)

theorem operands_bind (m : Bindings) (e : Expr) :
    (e.bind m).1.operands = e.operands.map fun operand => (operand.bind m).1 := by
  cases e with
  | atom a =>
    cases a with
    | number n => rfl
    | symbol s =>
      rw [bind_symbol]
      rfl
  | unary op e => rfl
  | binary op l r => rfl

theorem operator?_bind (m : Bindings) (e : Expr) : (e.bind m).1.operator? = e.operator? := by
  cases e with
  | atom a =>
    cases a with
    | number n => rfl
    | symbol s =>
      rw [bind_symbol]
      rfl
  | unary op e => rfl
  | binary op l r => rfl

theorem signature_bind (m : Bindings) (e : Expr) : (e.bind m).1.signature = e.signature := by
  rw [signature, operator?_bind, operands_bind, List.length_map, signature]

theorem subtree?_bind (m : Bindings) (e : Expr) (path : List Nat) :
    (e.bind m).1.subtree? path = (e.subtree? path).map fun g => (g.bind m).1 := by
  induction path generalizing e with
  | nil => rfl
  | cons i path ih =>
    rw [subtree?, subtree?, operands_bind, List.getElem?_map, Option.bind_map, Option.map_bind]
    congr 1
    funext operand
    exact ih operand

theorem render_bind (m : Bindings) (e : Expr) : (e.bind m).1.render = e.render := by
  induction e with
  | atom a =>
    cases a with
    | number n => rfl
    | symbol s =>
      rw [bind_symbol]
      rfl
  | unary op e ih => simp only [bind, render, ih]
  | binary op l r ihl ihr => simp only [bind, render, ihl, ihr]

theorem bind_all_iff_leaves {m : Bindings} {e : Expr} :
    (e.bind m).2 = true ↔ ∀ a ∈ e.leaves, ∀ name, a.name? = some name → name ∈ m := by
  induction e with
  | atom a =>
    cases a with
    | number n => simp [bind, leaves, Atom.name?]
    | symbol s =>
      have hname : (∀ a ∈ (atom (.symbol s)).leaves, ∀ name, a.name? = some name → name ∈ m) ↔
          s.name ∈ m := by simp [leaves, Atom.name?]
      rw [hname, Std.TreeMap.mem_iff_isSome_getElem?, bind]
      cases m[s.name]? <;> simp
  | unary op e ih => exact ih
  | binary op l r ihl ihr =>
    change ((l.bind m).2 && (r.bind m).2) = true ↔ _
    rw [Bool.and_eq_true, ihl, ihr, leaves, List.forall_mem_append]

theorem bind_all_iff {m : Bindings} {e : Expr} :
    (e.bind m).2 = true ↔ ∀ name ∈ e.symbols, name ∈ m := by
  rw [bind_all_iff_leaves]
  constructor
  · intro h name hname
    obtain ⟨a, ha, hname⟩ := mem_symbols_iff.1 hname
    exact h a ha name hname
  · intro h a ha name hname
    exact h name (mem_symbols_iff.2 ⟨a, ha, hname⟩)

theorem free_bind_of_all {m : Bindings} {e : Expr} (h : (e.bind m).2 = true) :
    (e.bind m).1.free = [] := by
  induction e with
  | atom a =>
    cases a with
    | number n => rfl
    | symbol s =>
      rw [bind] at h ⊢
      cases hm : m[s.name]? with
      | none =>
        rw [hm] at h
        cases h
      | some x => rfl
  | unary op e ih => exact ih h
  | binary op l r ihl ihr =>
    have hall : (l.bind m).2 = true ∧ (r.bind m).2 = true := Bool.and_eq_true_iff.1 h
    exact free_binary_eq_nil.2 ⟨ihl hall.1, ihr hall.2⟩

theorem bind_congr {m m' : Bindings} (h : ∀ name : String, m[name]? = m'[name]?) (e : Expr) :
    e.bind m = e.bind m' := by
  induction e with
  | atom a =>
    cases a with
    | number n => rfl
    | symbol s => rw [bind, bind, h]
  | unary op e ih => rw [bind, bind, ih]
  | binary op l r ihl ihr => rw [bind, bind, ihl, ihr]

theorem bind_empty (e : Expr) : (e.bind ∅).1 = e := by
  induction e with
  | atom a =>
    cases a with
    | number n => rfl
    | symbol s => rw [bind, Std.TreeMap.getElem?_emptyc]
  | unary op e ih => exact congrArg (unary op) ih
  | binary op l r ihl ihr => exact congrArg₂ (binary op) ihl ihr

theorem getElem?_ofPairs_singleton (p : String × Float) (name : String) :
    (Bindings.ofPairs [p])[name]? = if p.1 = name then some p.2 else none := by
  rw [Bindings.ofPairs, Std.TreeMap.ofList_singleton, Std.TreeMap.getElem?_insert,
    Std.TreeMap.getElem?_emptyc]
  simp only [Std.LawfulEqCmp.compare_eq_iff_eq]

theorem bind_insert (m : Bindings) (p : String × Float) (e : Expr) :
    (e.bind (m.insert p.1 p.2)).1 = ((e.bind m).1.bind (Bindings.ofPairs [p])).1 := by
  rw [bind_bind]
  refine congrArg Prod.fst (bind_congr ?_ e)
  intro name
  rw [Std.TreeMap.getElem?_union, getElem?_ofPairs_singleton, Std.TreeMap.getElem?_insert]
  simp only [Std.LawfulEqCmp.compare_eq_iff_eq]
  split
  · rfl
  · rw [Option.none_or]

theorem bind_insertMany (m : Bindings) (pairs : List (String × Float)) (e : Expr) :
    (e.bind (m.insertMany pairs)).1 =
      pairs.foldl (fun f p => (f.bind (Bindings.ofPairs [p])).1) (e.bind m).1 := by
  induction pairs generalizing m with
  | nil => rw [Std.TreeMap.insertMany_nil, List.foldl_nil]
  | cons p pairs ih =>
    rw [Std.TreeMap.insertMany_cons, ih, bind_insert, List.foldl_cons]

theorem bind_ofPairs (pairs : List (String × Float)) (e : Expr) :
    (e.bind (Bindings.ofPairs pairs)).1 =
      pairs.foldl (fun f p => (f.bind (Bindings.ofPairs [p])).1) e := by
  rw [Bindings.ofPairs, Std.TreeMap.ofList_eq_insertMany_empty, bind_insertMany, bind_empty]

/-- Binding keeps every operator and every number of a tree in its place, adds no part to it, and
leaves its text as it was. A symbol has the value that `m` has for its name, and the value it had
before where `m` has none. The answer is whether `m` names all symbols, and then there is a strict
value. Binding twice is binding once, where the later value of a name counts, and a list of pairs is
bound pair by pair, each of which gives a value to its own name only. -/
theorem bind_assigns_named (e : Expr) (m : Bindings) :
    (∀ path, ((e.bind m).1.subtree? path).map signature = (e.subtree? path).map signature) ∧
    (∀ path s, e.subtree? path = some (atom (.symbol s)) →
      (e.bind m).1.subtree? path = some (atom (.symbol ⟨s.name, m[s.name]?.or s.bound⟩))) ∧
    (∀ path n, e.subtree? path = some (atom (.number n)) →
      (e.bind m).1.subtree? path = some (atom (.number n))) ∧
    (e.bind m).1.render = e.render ∧
    ((e.bind m).2 = true ↔ ∀ name ∈ e.symbols, name ∈ m) ∧
    (e.WellFormed → (e.bind m).2 = true → ∃ x, (e.bind m).1.strictValue = .ok x) ∧
    (∀ m' : Bindings, ((e.bind m).1.bind m').1 = (e.bind (m ∪ m')).1 ∧
      ∀ name : String, (m ∪ m')[name]? = m'[name]?.or m[name]?) ∧
    (∀ pairs, (e.bind (Bindings.ofPairs pairs)).1 =
      pairs.foldl (fun f p => (f.bind (Bindings.ofPairs [p])).1) e) ∧
    ∀ (p : String × Float) (name : String),
      (Bindings.ofPairs [p])[name]? = if p.1 = name then some p.2 else none := by
  refine ⟨?_, ?_, ?_, render_bind m e, bind_all_iff, ?_, ?_, fun pairs => bind_ofPairs pairs e,
    getElem?_ofPairs_singleton⟩
  · intro path
    rw [subtree?_bind, Option.map_map]
    congr 1
    funext g
    exact signature_bind m g
  · intro path s hs
    rw [subtree?_bind, hs, Option.map_some, bind_symbol]
  · intro path n hn
    rw [subtree?_bind, hn, Option.map_some]
    rfl
  · intro hwf hall
    obtain ⟨x, hx⟩ := exists_value (wellFormed_bind m hwf)
    refine ⟨x, ?_⟩
    rw [strictValue_of_free_eq_nil (free_bind_of_all hall), hx]
  · intro m'
    exact ⟨bind_bind e m m', fun name => Std.TreeMap.getElem?_union⟩

theorem bind_assigns_named_in_difference :
    let x := Symbol.ofName "x"
    let y : Symbol := ⟨"y", some 7.0⟩
    let n : Number := ⟨"3", 3.0⟩
    let e := binary .plus (binary .minus (atom (.symbol (.ofName "z"))) (atom (.symbol x)))
      (binary .times (atom (.symbol y)) (unary .factorial (atom (.number n))))
    let m := Bindings.ofPairs [("x", 2.0), ("u", 1.0), ("x", 5.0)]
    let m' := Bindings.ofPairs [("z", 4.0), ("y", 1.0), ("x", 6.0)]
    e.subtree? [0, 1] = some (atom (.symbol x)) ∧
      (e.bind m).1.subtree? [0, 1] = some (atom (.symbol ⟨"x", some 5.0⟩)) ∧
      e.subtree? [1, 0] = some (atom (.symbol y)) ∧
      (e.bind m).1.subtree? [1, 0] = some (atom (.symbol y)) ∧
      e.subtree? [1, 1, 0] = some (atom (.number n)) ∧
      (e.bind m).1.subtree? [1, 1, 0] = some (atom (.number n)) ∧
      (e.bind m).2 = false ∧ e.WellFormed ∧ (e.bind m').2 = true ∧
      ∃ v, (e.bind m').1.strictValue = .ok v := by
  intro x y n e m m'
  have he : e.WellFormed := by
    simp [e, WellFormed, Operator.takes, Operator.unary?, Operator.binary?]
  have hx : m[x.name]? = some 5.0 := by decide +kernel
  have hy : m[y.name]? = none := by decide +kernel
  have hall : (e.bind m').2 = true := by decide +kernel
  obtain ⟨-, hsymbol, hnumber, -⟩ := bind_assigns_named e m
  obtain ⟨-, -, -, -, -, hstrict, -⟩ := bind_assigns_named e m'
  have hbound := hsymbol [0, 1] x rfl
  have hkept := hsymbol [1, 0] y rfl
  rw [hx] at hbound
  rw [hy] at hkept
  exact ⟨rfl, hbound, rfl, hkept, rfl, hnumber [1, 1, 0] n rfl, by decide +kernel, he, hall,
    hstrict he hall⟩

end Formula.Expr
