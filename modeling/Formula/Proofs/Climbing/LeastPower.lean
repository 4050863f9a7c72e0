import Formula.Proofs.Binary64.Order
import Formula.Proofs.Climbing.Accounting

namespace Formula

namespace Expr

/-- A tree and what is reached from it by going from an operator between two operands to the left
one, again and again. -/
def leftSpine : Expr → List Expr
  | binary op l r => binary op l r :: l.leftSpine
  | e => [e]

theorem mem_leftSpine_self (e : Expr) : e ∈ e.leftSpine := by
  cases e <;> exact List.mem_cons_self

theorem mem_leftSpine_of_binary {op : Operator} {l r e : Expr} (h : binary op l r ∈ e.leftSpine) :
    l ∈ e.leftSpine := by
  induction e with
  | atom a => cases List.mem_singleton.1 h
  | unary op' e ih => cases List.mem_singleton.1 h
  | binary op' l' r' ihl ihr =>
    apply List.mem_cons_of_mem
    obtain h | h := List.mem_cons.1 h
    · cases h
      exact mem_leftSpine_self l
    · exact ihl h

/-- Every operator that is cut off at the power `p` is cut off at the power `q`. -/
def CutsMore (p q : Float) : Prop :=
  ∀ op b, Operator.power? op = some b → b.left < p → b.left < q

theorem cutsMore_of_le {p q : Float} (h : p ≤ q) : CutsMore p q :=
  fun _ _ _ hp => Binary64.lt_of_lt_of_le hp h

/-- What is not a number, or not above zero, cuts off nothing. -/
theorem not_left_lt {op : Operator} {b : BindingPower} (h : op.power? = some b) {p : Float}
    (hp : p.isNaN = true ∨ p ≤ 0.0) : ¬ b.left < p := by
  intro hlt
  obtain hp | hp := hp
  · exact Binary64.not_lt_of_isNaN hp hlt
  · exact Operator.not_left_lt_zero h (Binary64.lt_of_lt_of_le hlt hp)

variable {stop : Nat} {p q : Float} {m : Option Expr} {ts us : List Token}

/-- The next token is an operator that is cut off at the power `q`, but not at `p`. -/
def Separates (p q : Float) (ts : List Token) : Prop :=
  ∃ t us op b, ts = t :: us ∧ t.kind = .operator op ∧ op.power? = some b ∧ op ≠ .factorial ∧
    b.left < q ∧ ¬ b.left < p

/-- Where the reading with the power `q` gives `u` and leaves `vs`, the one with `p` ends as well,
or it goes on from there. -/
def Resumes (stop : Nat) (p q : Float) (u : Expr) (vs : List Token) (e : Expr) (us : List Token) :
    Prop :=
  (e = u ∧ us = vs) ∨ (Separates p q vs ∧ Climbs stop (some u) p vs (.ok e) us)

theorem exists_climbs_of_cutsMore {e : Expr} (h : Climbs stop m p ts (.ok e) us)
    (hpq : CutsMore p q) :
    ∃ u vs, Climbs stop m q ts (.ok u) vs ∧ Resumes stop p q u vs e us := by
  generalize hr : (Except.ok e : Except Error Expr) = r at h
  induction h with
  | leaf ht h ih =>
    obtain ⟨u, vs, hu, hresumes⟩ := ih hpq hr
    exact ⟨u, vs, .leaf ht hu, hresumes⟩
  | groupLast ht h hclose hend ih =>
    cases hr
    exact ⟨_, _, .groupLast ht h hclose hend, Or.inl ⟨rfl, rfl⟩⟩
  | group ht h hclose hend hon ih ihOn =>
    obtain ⟨u, vs, hu, hresumes⟩ := ihOn hpq hr
    exact ⟨u, vs, .group ht h hclose hend hu, hresumes⟩
  | before ht hop h hon ih ihOn =>
    obtain ⟨u, vs, hu, hresumes⟩ := ihOn hpq hr
    exact ⟨u, vs, .before ht hop h hu, hresumes⟩
  | ends ht =>
    cases hr
    exact ⟨_, _, .ends ht, Or.inl ⟨rfl, rfl⟩⟩
  | after ht hon ih =>
    obtain ⟨u, vs, hu, hresumes⟩ := ih hpq hr
    exact ⟨u, vs, .after ht hu, hresumes⟩
  | cutOff ht hop hafter hp =>
    cases hr
    exact ⟨_, _, .cutOff ht hop hafter (hpq _ _ hop hp), Or.inl ⟨rfl, rfl⟩⟩
  | @between least e right t ts us vs op b r ht hop hp htakes h hon ih ihOn =>
    have hafter := Operator.ne_factorial_of_takes_two htakes
    by_cases hq : b.left < q
    · -- here the two readings part, and the lower power takes the operator
      subst hr
      exact ⟨e, t :: ts, .cutOff ht hop hafter hq,
        Or.inr ⟨⟨t, ts, op, b, rfl, ht, hop, hafter, hq, hp⟩, .between ht hop hp htakes h hon⟩⟩
    · obtain ⟨u, vs, hu, hresumes⟩ := ihOn hpq hr
      exact ⟨u, vs, .between ht hop hq htakes h hu, hresumes⟩
  | _ => cases hr

theorem climbs_error_of_cutsMore {err : Error} (h : Climbs stop m q ts (.error err) us)
    (hpq : CutsMore p q) : Climbs stop m p ts (.error err) us := by
  generalize hr : (Except.error err : Except Error Expr) = r at h
  induction h with
  | leaf ht h ih => exact .leaf ht (ih hpq hr)
  | groupFails ht h ih => exact .groupFails ht h
  | groupOpen ht h hclose ih => exact .groupOpen ht h hclose
  | group ht h hclose hend hon ih ihOn => exact .group ht h hclose hend (ihOn hpq hr)
  | beforeFails ht hop h ih => exact .beforeFails ht hop h
  | before ht hop h hon ih ihOn => exact .before ht hop h (ihOn hpq hr)
  | noOperand ht => exact .noOperand ht
  | after ht hon ih => exact .after ht (ih hpq hr)
  | betweenFails ht hop hafter hq h ih =>
    exact .betweenFails ht hop hafter (mt (hpq _ _ hop) hq) h
  | misuse ht hop hafter hq htakes h ih =>
    exact .misuse ht hop hafter (mt (hpq _ _ hop) hq) htakes h
  | between ht hop hq htakes h hon ih ihOn =>
    exact .between ht hop (mt (hpq _ _ hop) hq) htakes h (ihOn hpq hr)
  | noOperator hend ht => exact .noOperator hend ht
  | _ => cases hr

theorem climbs_of_cutsMore_both {r : Except Error Expr} (h : Climbs stop m p ts r us)
    (hpq : CutsMore p q) (hqp : CutsMore q p) : Climbs stop m q ts r us := by
  cases r with
  | error err => exact climbs_error_of_cutsMore h hqp
  | ok e =>
    obtain ⟨u, vs, hu, ⟨rfl, rfl⟩ | ⟨⟨t, ws, op, b, -, -, hop, -, hq, hp⟩, -⟩⟩ :=
      exists_climbs_of_cutsMore h hpq
    · exact hu
    · exact absurd (hqp op b hop hq) hp

theorem kind_pull_ne_factorial {least : Float} (h : Ends stop least ts) :
    (pull stop ts).1.kind ≠ .operator .factorial := by
  intro hk
  obtain hend | ⟨op, b, hop, -, hafter, -⟩ := h
  · rw [hk] at hend
    cases hend
  · rw [hk] at hop
    cases hop
    exact hafter rfl

theorem mem_leftSpine_of_climbs {u e : Expr} (h : Climbs stop (some u) p ts (.ok e) us)
    (hts : (pull stop ts).1.kind ≠ .operator .factorial) : u ∈ e.leftSpine := by
  generalize hm : some u = m at h
  generalize hr : (Except.ok e : Except Error Expr) = r at h
  induction h generalizing u with
  | ends ht =>
    cases hm
    cases hr
    exact mem_leftSpine_self _
  | cutOff ht hop hafter hp =>
    cases hm
    cases hr
    exact mem_leftSpine_self _
  | after ht hon ih => exact absurd ht hts
  | between ht hop hp htakes h hon ih ihOn =>
    cases hm
    -- the right operand takes every factorial behind it
    exact mem_leftSpine_of_binary (ihOn (kind_pull_ne_factorial (ends_of_climbs h)) rfl hr)
  | betweenFails => cases hr
  | misuse => cases hr
  | noOperator => cases hr
  | _ => cases hm

theorem Resumes.mem_leftSpine {u e : Expr} {vs : List Token}
    (h : Resumes stop p q u vs e us) : u ∈ e.leftSpine := by
  obtain ⟨rfl, -⟩ | ⟨⟨t, ws, op, b, rfl, ht, -, hafter, -⟩, h⟩ := h
  · exact mem_leftSpine_self e
  · apply mem_leftSpine_of_climbs h
    rw [pull, ht]
    exact fun hk => hafter (Token.Kind.operator.inj hk)

theorem Resumes.exists_consumes {u e : Expr} {vs cs : List Token} (h : Resumes stop p q u vs e us)
    (hcs : Consumes stop ts cs vs) (hu : Traverses u (cs.map Token.kind)) :
    ∃ ds, Consumes stop ts (cs ++ ds) us ∧ Traverses e ((cs ++ ds).map Token.kind) := by
  obtain ⟨rfl, rfl⟩ | ⟨-, h⟩ := h
  · refine ⟨[], ?_, ?_⟩ <;> rwa [List.append_nil]
  · obtain ⟨ds, hds, he⟩ := accounts_of_climbs h _ hu
    have hfinish : .finish ∉ ds.map Token.kind :=
      fun hmem => he.finish_notMem (List.mem_append_right _ hmem)
    refine ⟨ds, hcs.trans hds hfinish, ?_⟩
    rwa [List.map_append]

/-- Where the reading goes on, it takes the operator at least. -/
theorem Resumes.length_le {u e : Expr} {vs : List Token} (h : Resumes stop p q u vs e us) :
    us.length ≤ vs.length := by
  obtain ⟨-, rfl⟩ | ⟨⟨t, ws, op, b, rfl, ht, hop, hafter, -, hp⟩, h⟩ := h
  · exact Nat.le_refl _
  · cases h with
    | ends hend =>
      rw [pull, ht] at hend
      rw [of_decide_eq_true hend] at hop
      cases hop
    | after ht' =>
      rw [ht] at ht'
      exact absurd (Token.Kind.operator.inj ht') hafter
    | cutOff => exact Nat.le_refl _
    | between ht' hop' hp' htakes hright hon =>
      have hright := length_le_of_climbs hright
      have hon := length_le_of_climbs hon
      simp only [Option.isSome_none, Option.isSome_some, if_true, Bool.false_eq_true, if_false]
        at hright hon
      rw [List.length_cons]
      omega

end Expr

namespace TokenStream

open Formula.Expr

theorem climbs_of_readExpr {s rest : TokenStream} {least : Float} {r : Except Error Expr}
    (h : s.readExpr least = (r, rest)) :
    Climbs s.stop none least s.tokens r rest.tokens ∧ rest = { s with tokens := rest.tokens } := by
  obtain ⟨r', us, hclimbs⟩ : ∃ r' us, Climbs s.stop none least s.tokens r' us := exists_climbs _ _ _
  rw [readExpr_of_climbs hclimbs] at h
  cases h
  exact ⟨hclimbs, rfl⟩

/-- If a reading with the least power `p` gives a tree, then one from the same stream with a power
that is not lower gives a tree as well: it stands on the left spine of the first one, and its tokens
are the first of those that the first one takes. If the reading with the higher power fails, then so
does the one with the lower, with the same error. A least power that is not a number, or not above
zero, is as good as zero. -/
theorem readExpr_mono (s : TokenStream) :
    (∀ p q : Float, p ≤ q →
      (∀ e rest, s.readExpr p = (.ok e, rest) → ∃ u rest' cs ds, s.readExpr q = (.ok u, rest') ∧
        u ∈ e.leftSpine ∧ rest.tokens.length ≤ rest'.tokens.length ∧
        Consumes s.stop s.tokens cs rest'.tokens ∧ Traverses u (cs.map Token.kind) ∧
        Consumes s.stop s.tokens (cs ++ ds) rest.tokens ∧
        Traverses e ((cs ++ ds).map Token.kind)) ∧
      ∀ err rest, s.readExpr q = (.error err, rest) → s.readExpr p = (.error err, rest)) ∧
    ∀ p : Float, p.isNaN = true ∨ p ≤ 0.0 → s.readExpr p = s.readExpr 0.0 := by
  refine ⟨fun p q hpq => ⟨?_, ?_⟩, ?_⟩
  · intro e rest hread
    obtain ⟨he, -⟩ := climbs_of_readExpr hread
    obtain ⟨u, vs, hu, hresumes⟩ := exists_climbs_of_cutsMore he (cutsMore_of_le hpq)
    obtain ⟨cs, hcs, htraverses⟩ := accounts_of_climbs hu
    obtain ⟨ds, hds, htraverses'⟩ := hresumes.exists_consumes hcs htraverses
    exact ⟨u, _, cs, ds, readExpr_of_climbs hu, hresumes.mem_leftSpine, hresumes.length_le, hcs,
      htraverses, hds, htraverses'⟩
  · intro err rest hread
    obtain ⟨herr, hrest⟩ := climbs_of_readExpr hread
    rw [hrest]
    exact readExpr_of_climbs (climbs_error_of_cutsMore herr (cutsMore_of_le hpq))
  · intro p hp
    obtain ⟨r, us, h⟩ : ∃ r us, Climbs s.stop none p s.tokens r us := exists_climbs _ _ _
    have hpzero : CutsMore p 0.0 := fun op b hop hlt => absurd hlt (not_left_lt hop hp)
    have hzerop : CutsMore 0.0 p :=
      fun op b hop hlt => absurd hlt (Operator.not_left_lt_zero hop)
    have hzero := climbs_of_cutsMore_both h hpzero hzerop
    rw [readExpr_of_climbs h, readExpr_of_climbs hzero]

theorem readExpr_mono_difference :
    let two := atom (.number ⟨"2", 2.0⟩)
    let x := atom (.symbol (.ofName "x"))
    let e := binary .minus (binary .times two x) two
    let s : TokenStream := ⟨[⟨.number ⟨"2", 2.0⟩, ⟨0, 1⟩⟩, ⟨.operator .times, ⟨1, 2⟩⟩,
      ⟨.symbol (.ofName "x"), ⟨2, 3⟩⟩, ⟨.operator .minus, ⟨3, 4⟩⟩, ⟨.number ⟨"2", 2.0⟩, ⟨4, 5⟩⟩], 5⟩
    let s' : TokenStream := ⟨[⟨.number ⟨"2", 2.0⟩, ⟨0, 1⟩⟩, ⟨.operator .sin, ⟨1, 4⟩⟩], 4⟩
    let err := (Token.finish 4).unexpected
    (1.0 : Float) ≤ 1.5 ∧ s.readExpr 1.0 = (.ok e, ⟨[Token.finish 5], 5⟩) ∧
      (∃ u, s.readExpr 1.5 = (.ok u, ⟨s.tokens.drop 3, 5⟩) ∧ u ∈ e.leftSpine ∧ u ≠ e) ∧
      (-1.0 : Float) ≤ 0.0 ∧ s'.readExpr 0.0 = (.error err, ⟨[], 4⟩) ∧
      s'.readExpr (-1.0) = (.error err, ⟨[], 4⟩) ∧
      (0.0 / 0.0 : Float).isNaN = true ∧ s.readExpr (0.0 / 0.0) = s.readExpr 0.0 := by
  intro two x e s s' err
  have hle : (1.0 : Float) ≤ 1.5 := by decide
  have hle' : (-1.0 : Float) ≤ 0.0 := by decide
  have hnan : (0.0 / 0.0 : Float).isNaN = true := by decide
  have he : s.readExpr 1.0 = (.ok e, ⟨[Token.finish 5], 5⟩) := by decide +kernel
  have hproduct : s.readExpr 1.5 = (.ok (binary .times two x), ⟨s.tokens.drop 3, 5⟩) := by
    decide +kernel
  have herr : s'.readExpr 0.0 = (.error err, ⟨[], 4⟩) := by decide +kernel
  obtain ⟨hmono, hzero⟩ := readExpr_mono s
  obtain ⟨u, rest, cs, ds, hu, hspine, -⟩ := (hmono 1.0 1.5 hle).1 _ _ he
  cases hproduct.symm.trans hu
  have herr' := ((readExpr_mono s').1 (-1.0) 0.0 hle').2 _ _ herr
  exact ⟨hle, he, ⟨_, hproduct, hspine, by decide⟩, hle', herr, herr', hnan, hzero _ (.inl hnan)⟩

end TokenStream

end Formula
