import Formula.Proofs.Built

namespace Formula.Expr

inductive Folds : Expr → Expr → Prop
  | leaf (a : Atom) : Folds (atom a) (atom a)
  | unaryValue {op : Operator} {e f : Expr} {x y : Float} (h : Folds e f)
      (hx : f.resolved? = some x) (hy : op.apply [x] = .ok y) : Folds (unary op e) (ofFloat y)
  | unary {op : Operator} {e f : Expr} (h : Folds e f) (hf : f.resolved? = none) :
      Folds (unary op e) (unary op f)
  | binaryValue {op : Operator} {l l' r r' : Expr} {x y z : Float} (hl : Folds l l')
      (hr : Folds r r') (hx : l'.resolved? = some x) (hy : r'.resolved? = some y)
      (hz : op.apply [x, y] = .ok z) : Folds (binary op l r) (ofFloat z)
  | binary {op : Operator} {l l' r r' : Expr} (hl : Folds l l') (hr : Folds r r')
      (h : l'.resolved? = none ∨ r'.resolved? = none) : Folds (binary op l r) (binary op l' r')

theorem fold_eq_of_folds {e f : Expr} (h : Folds e f) : e.fold = .ok f := by
  induction h with
  | leaf a => rfl
  | @unaryValue op e f x y h hx hy ih =>
    rw [fold, ih]
    change collapseUnary op f (.ok (unary op f)) = .ok (ofFloat y)
    rw [collapseUnary, hx]
    simp only [hy, Except.map]
  | @unary op e f h hf ih =>
    rw [fold, ih]
    change collapseUnary op f (.ok (unary op f)) = .ok (unary op f)
    rw [collapseUnary, hf]
  | @binaryValue op l l' r r' x y z hl hr hx hy hz ihl ihr =>
    rw [fold, ihl, ihr]
    change collapseBinary op l' r' (.ok (binary op l' r')) = .ok (ofFloat z)
    rw [collapseBinary, hx, hy]
    simp only [hz, Except.map]
  | @binary op l l' r r' hl hr h ihl ihr =>
    rw [fold, ihl, ihr]
    change collapseBinary op l' r' (.ok (binary op l' r')) = .ok (binary op l' r')
    rw [collapseBinary]
    split
    · next hx hy => simp [hx, hy] at h
    · rfl

theorem exists_folds {e : Expr} (h : e.WellFormed) : ∃ f, Folds e f := by
  induction e with
  | atom a => exact ⟨atom a, .leaf a⟩
  | unary op e ih =>
    obtain ⟨f, hf⟩ := ih h.2
    cases hx : f.resolved? with
    | none => exact ⟨_, .unary hf hx⟩
    | some x =>
      obtain ⟨y, hy⟩ : ∃ y, op.apply [x] = .ok y := Operator.exists_apply h.1
      exact ⟨_, .unaryValue hf hx hy⟩
  | binary op l r ihl ihr =>
    obtain ⟨l', hl⟩ := ihl h.2.1
    obtain ⟨r', hr⟩ := ihr h.2.2
    cases hx : l'.resolved? with
    | none => exact ⟨_, .binary hl hr (Or.inl hx)⟩
    | some x =>
      cases hy : r'.resolved? with
      | none => exact ⟨_, .binary hl hr (Or.inr hy)⟩
      | some y =>
        obtain ⟨z, hz⟩ : ∃ z, op.apply [x, y] = .ok z := Operator.exists_apply h.1
        exact ⟨_, .binaryValue hl hr hx hy hz⟩

theorem Folds.wellFormed {e f : Expr} (h : Folds e f) (he : e.WellFormed) : f.WellFormed := by
  induction h with
  | leaf a => trivial
  | unaryValue h hx hy ih => trivial
  | unary h hf ih => exact ⟨he.1, ih he.2⟩
  | binaryValue hl hr hx hy hz ihl ihr => trivial
  | binary hl hr h ihl ihr => exact ⟨he.1, ihl he.2.1, ihr he.2.2⟩

theorem Folds.symbol_mem {e f : Expr} (h : Folds e f) {s : Symbol} (hs : .symbol s ∈ f.leaves) :
    .symbol s ∈ e.leaves := by
  induction h with
  | leaf a => exact hs
  | unaryValue h hx hy ih => simp [ofFloat, leaves] at hs
  | unary h hf ih => exact ih hs
  | binaryValue hl hr hx hy hz ihl ihr => simp [ofFloat, leaves] at hs
  | binary hl hr h ihl ihr =>
    rw [leaves, List.mem_append] at hs ⊢
    exact hs.imp ihl ihr

def Unbound (e : Expr) : Prop := ∀ s, .symbol s ∈ e.leaves → s.bound = none

/-- Every symbol that has a value is one that `m` does not name. -/
def Spares (m : Bindings) (e : Expr) : Prop :=
  ∀ s, .symbol s ∈ e.leaves → s.bound.isSome → s.name ∉ m

theorem Unbound.folds {e f : Expr} (he : e.Unbound) (h : Folds e f) : f.Unbound :=
  fun s hs => he s (h.symbol_mem hs)

theorem Spares.folds {m : Bindings} {e f : Expr} (he : Spares m e) (h : Folds e f) : Spares m f :=
  fun s hs => he s (h.symbol_mem hs)

theorem eq_atom_of_resolved? {e : Expr} {x : Float} (h : e.resolved? = some x) :
    ∃ a, e = atom a ∧ a.isResolved = true := by
  cases e with
  | unary op e => cases h
  | binary op l r => cases h
  | atom a =>
    refine ⟨a, rfl, ?_⟩
    rw [resolved?] at h
    split at h
    · assumption
    · cases h

theorem Spares.bind_resolved? {m : Bindings} {e : Expr} {x : Float} (he : Spares m e)
    (h : e.resolved? = some x) : (e.bind m).1 = e := by
  obtain ⟨a, rfl, ha⟩ := eq_atom_of_resolved? h
  cases a with
  | number n => rfl
  | symbol s =>
    have hs : s.name ∉ m := he s List.mem_cons_self ha
    rw [bind, Std.TreeMap.getElem?_eq_none hs]

theorem Unbound.bind_resolved? {e : Expr} {x : Float} (he : e.Unbound)
    (h : e.resolved? = some x) (m : Bindings) : (e.bind m).2 = true := by
  obtain ⟨a, rfl, ha⟩ := eq_atom_of_resolved? h
  cases a with
  | number n => rfl
  | symbol s =>
    have hs : s.bound = none := he s List.mem_cons_self
    rw [Atom.isResolved, hs] at ha
    cases ha

theorem spares_binary {m : Bindings} {op : Operator} {l r : Expr} (h : Spares m (binary op l r)) :
    Spares m l ∧ Spares m r :=
  ⟨fun s hs => h s (List.mem_append_left _ hs), fun s hs => h s (List.mem_append_right _ hs)⟩

theorem unbound_binary {op : Operator} {l r : Expr} (h : (binary op l r).Unbound) :
    l.Unbound ∧ r.Unbound :=
  ⟨fun s hs => h s (List.mem_append_left _ hs), fun s hs => h s (List.mem_append_right _ hs)⟩

theorem folds_of_resolved? {e : Expr} {x : Float} (h : e.resolved? = some x) : Folds e e := by
  obtain ⟨a, rfl, -⟩ := eq_atom_of_resolved? h
  exact .leaf a

/-- What comes of binding and folding after a fold comes of it without. -/
theorem Folds.bind {m : Bindings} {e f g : Expr} (h : Folds e f) (he : Spares m e)
    (hg : Folds (f.bind m).1 g) : Folds (e.bind m).1 g := by
  induction h generalizing g with
  | leaf a => exact hg
  | @unaryValue op e f x y h hx hy ih =>
    -- the operand has come to a leaf with a value, and `m` takes no value back
    have hoperand : Spares m e := he
    have hbind : (f.bind m).1 = f := (hoperand.folds h).bind_resolved? hx
    have hbound : Folds (e.bind m).1 f := ih he (by rw [hbind]; exact folds_of_resolved? hx)
    cases hg
    exact .unaryValue hbound hx hy
  | unary h hf ih =>
    cases hg with
    | unaryValue hg hx hy => exact .unaryValue (ih he hg) hx hy
    | unary hg hx => exact .unary (ih he hg) hx
  | @binaryValue op l l' r r' x y z hl hr hx hy hz ihl ihr =>
    obtain ⟨hel, her⟩ := spares_binary he
    have hbindl : (l'.bind m).1 = l' := (hel.folds hl).bind_resolved? hx
    have hbindr : (r'.bind m).1 = r' := (her.folds hr).bind_resolved? hy
    have hboundl : Folds (l.bind m).1 l' := ihl hel (by rw [hbindl]; exact folds_of_resolved? hx)
    have hboundr : Folds (r.bind m).1 r' := ihr her (by rw [hbindr]; exact folds_of_resolved? hy)
    cases hg
    exact .binaryValue hboundl hboundr hx hy hz
  | binary hl hr h ihl ihr =>
    obtain ⟨hel, her⟩ := spares_binary he
    cases hg with
    | binaryValue hgl hgr hx hy hz => exact .binaryValue (ihl hel hgl) (ihr her hgr) hx hy hz
    | binary hgl hgr hnone => exact .binary (ihl hel hgl) (ihr her hgr) hnone

/-- A symbol without a value is never folded away, so a fold leaves all that has to be bound. -/
theorem Folds.bind_all {e f : Expr} (h : Folds e f) (he : e.Unbound) (m : Bindings) :
    (f.bind m).2 = (e.bind m).2 := by
  induction h with
  | leaf a => rfl
  | @unaryValue op e f x y h hx hy ih =>
    have hoperand : e.Unbound := he
    calc ((ofFloat y).bind m).2
        = (f.bind m).2 := ((hoperand.folds h).bind_resolved? hx m).symm
      _ = (e.bind m).2 := ih he
  | unary h hf ih => exact ih he
  | @binaryValue op l l' r r' x y z hl hr hx hy hz ihl ihr =>
    obtain ⟨hel, her⟩ := unbound_binary he
    have hboundl : (l.bind m).2 = true :=
      (ihl hel).symm.trans ((hel.folds hl).bind_resolved? hx m)
    have hboundr : (r.bind m).2 = true :=
      (ihr her).symm.trans ((her.folds hr).bind_resolved? hy m)
    change true = ((l.bind m).2 && (r.bind m).2)
    rw [hboundl, hboundr]
    rfl
  | @binary op l l' r r' hl hr h ihl ihr =>
    obtain ⟨hel, her⟩ := unbound_binary he
    exact congrArg₂ and (ihl hel) (ihr her)

theorem bind_bind (e : Expr) (m₁ m₂ : Bindings) :
    ((e.bind m₁).1.bind m₂).1 = (e.bind (m₁ ∪ m₂)).1 := by
  induction e with
  | atom a =>
    cases a with
    | number n => rfl
    | symbol s =>
      rw [bind_symbol, bind_symbol, bind_symbol, Std.TreeMap.getElem?_union, Option.or_assoc]
  | unary op e ih => exact congrArg (unary op) ih
  | binary op l r ihl ihr => exact congrArg₂ (binary op) ihl ihr

theorem Unbound.spares_bind {e : Expr} (he : e.Unbound) {m₁ m₂ : Bindings}
    (h : ∀ name ∈ m₁, name ∉ m₂) : Spares m₂ (e.bind m₁).1 := by
  induction e with
  | atom a =>
    cases a with
    | number n => intro s hs; simp [bind, leaves] at hs
    | symbol t =>
      intro s hs hbound
      have ht : t.bound = none := he t List.mem_cons_self
      rw [bind_symbol, ht, Option.or_none] at hs
      cases List.mem_singleton.1 hs
      exact h t.name (Std.TreeMap.mem_iff_isSome_getElem?.2 hbound)
  | unary op e ih => exact ih he
  | binary op l r ihl ihr =>
    obtain ⟨hel, her⟩ := unbound_binary he
    intro s hs
    obtain hs | hs := List.mem_append.1 hs
    · exact ihl hel s hs
    · exact ihr her s hs

/-- Folding before symbols are bound and again behind that comes to the same tree as folding only
behind it, unless a value is taken back that was already used. So symbols may be bound in two
stages with a fold behind each of them, and whether all are bound can be told from either tree. -/
theorem fold_bind_fold {e : Expr} (h : e.WellFormed) :
    (∃ f, e.fold = .ok f ∧
      (∀ m, Spares m e → ∃ g, (f.bind m).1.fold = .ok g ∧ (e.bind m).1.fold = .ok g) ∧
      (e.Unbound → ∀ m, (f.bind m).2 = (e.bind m).2)) ∧
    (e.Unbound → ∀ m₁ m₂ : Bindings, (∀ name ∈ m₁, name ∉ m₂) →
      ∃ f g, (e.bind m₁).1.fold = .ok f ∧ (f.bind m₂).1.fold = .ok g ∧
        (e.bind (m₁ ∪ m₂)).1.fold = .ok g) := by
  constructor
  · obtain ⟨f, hf⟩ := exists_folds h
    refine ⟨f, fold_eq_of_folds hf, ?_, hf.bind_all⟩
    intro m hm
    obtain ⟨g, hg⟩ := exists_folds (wellFormed_bind m (hf.wellFormed h))
    exact ⟨g, fold_eq_of_folds hg, fold_eq_of_folds (hf.bind hm hg)⟩
  · intro he m₁ m₂ hdisjoint
    obtain ⟨f, hf⟩ := exists_folds (wellFormed_bind m₁ h)
    obtain ⟨g, hg⟩ := exists_folds (wellFormed_bind m₂ (hf.wellFormed (wellFormed_bind m₁ h)))
    have hstaged := hf.bind (he.spares_bind hdisjoint) hg
    rw [bind_bind] at hstaged
    exact ⟨f, g, fold_eq_of_folds hf, fold_eq_of_folds hg, fold_eq_of_folds hstaged⟩

theorem fold_bind_fold_staged :
    let a := atom (.symbol (.ofName "a"))
    let b := atom (.symbol (.ofName "b"))
    let e := binary .minus (binary .times (binary .plus a (unary .factorial (ofFloat 3.0))) b) a
    let m₁ := Bindings.ofPairs [("a", 2.0)]
    let m₂ := Bindings.ofPairs [("b", 5.0)]
    e.WellFormed ∧ e.Unbound ∧ (∀ name ∈ m₁, name ∉ m₂) ∧
      ∃ f g, (e.bind m₁).1.fold = .ok f ∧ f.render = "(- (* 8 b) a)" ∧
        (f.bind m₂).1.fold = .ok g ∧ (e.bind (m₁ ∪ m₂)).1.fold = .ok g ∧ g.render = "38" := by
  intro a b e m₁ m₂
  have he : e.WellFormed := by
    simp [e, a, b, ofFloat, WellFormed, Operator.takes, Operator.unary?, Operator.binary?]
  have hunbound : e.Unbound := by
    intro s hs
    simp only [e, a, b, ofFloat, leaves, List.cons_append, List.nil_append, List.mem_cons,
      Atom.symbol.injEq, reduceCtorEq, List.not_mem_nil, or_false, false_or] at hs
    obtain rfl | rfl | rfl := hs <;> rfl
  have hdisjoint : ∀ name ∈ m₁, name ∉ m₂ := by
    intro name h₁ h₂
    simp only [m₁, m₂, Bindings.ofPairs, Std.TreeMap.mem_ofList] at h₁ h₂
    simp_all
  obtain ⟨-, hstaged⟩ := fold_bind_fold he
  obtain ⟨f, g, hf, hg, hg'⟩ := hstaged hunbound m₁ m₂ hdisjoint
  have hrender : ((e.bind m₁).1.fold.map render).toOption = some "(- (* 8 b) a)" := by
    decide +kernel
  have hrender' : ((e.bind (m₁ ∪ m₂)).1.fold.map render).toOption = some "38" := by decide +kernel
  rw [hf] at hrender
  rw [hg'] at hrender'
  exact ⟨he, hunbound, hdisjoint, f, g, hf, Option.some.inj hrender, hg, hg',
    Option.some.inj hrender'⟩

end Formula.Expr
