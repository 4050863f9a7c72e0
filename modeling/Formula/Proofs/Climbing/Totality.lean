import Formula.Proofs.Climbing.Rules

namespace Formula.Expr

/-- The reader leaves no more than it is given, but for an end marker behind an operand. -/
theorem length_le_of_climbs {stop : Nat} {m : Option Expr} {least : Float} {ts us : List Token}
    {r : Except Error Expr} (h : Climbs stop m least ts r us) :
    us.length ≤ ts.length + if m.isSome then 1 else 0 := by
  have hrun := run_eq_of_climbs h
  cases m with
  | none =>
    have hlen := (climb stop least ts).2
    rw [run] at hrun
    rwa [hrun] at hlen
  | some e =>
    have hlen := (climbOn stop least e ts).2
    rw [run] at hrun
    rwa [hrun] at hlen

variable {stop n : Nat}
  (ih : ∀ (m : Option Expr) (least : Float) (ts : List Token), ts.length < n →
    ∃ r us, Climbs stop m least ts r us)

include ih in
theorem exists_climbs_behind (least : Float) (e : Expr) (ts : List Token) (hn : ts.length ≤ n) :
    ∃ r us, Climbs stop (some e) least ts r us := by
  by_cases hend : (pull stop ts).1.kind.endsExpr = true
  · exact ⟨_, _, .ends hend⟩
  cases ts with
  | nil => exact absurd rfl hend
  | cons t ts =>
    rw [List.length_cons] at hn
    cases hp : t.kind.power? with
    | none => exact ⟨_, _, .noOperator (Bool.eq_false_iff.2 hend) hp⟩
    | some p =>
      obtain ⟨op, ht, hop⟩ : ∃ op, t.kind = .operator op ∧ op.power? = some p := by
        cases hk : t.kind <;> simp_all [Token.Kind.power?, Token.Kind.operator?]
      by_cases hafter : op = .factorial
      · subst hafter
        obtain ⟨r, us, h⟩ := ih (some (unary .factorial e)) least ts (by omega)
        exact ⟨r, us, .after ht h⟩
      by_cases hcut : p.left < least
      · exact ⟨_, _, .cutOff ht hop hafter hcut⟩
      obtain ⟨r, us, h⟩ := ih none p.right ts (by omega)
      cases r with
      | error err => exact ⟨_, _, .betweenFails ht hop hafter hcut h⟩
      | ok right =>
        cases htakes : op.takes 2 with
        | false => exact ⟨_, _, .misuse ht hop hafter hcut htakes h⟩
        | true =>
          have hlen := length_le_of_climbs h
          obtain ⟨r, vs, hon⟩ := ih (some (binary op e right)) least us (by
            simp only [Option.isSome_none, Bool.false_eq_true, if_false] at hlen
            omega)
          exact ⟨r, vs, .between ht hop hcut htakes h hon⟩

include ih in
theorem exists_climbs_group (least : Float) {t : Token} {ts : List Token}
    (hn : (t :: ts).length ≤ n) (ht : t.kind = .operator .openParen) :
    ∃ r us, Climbs stop none least (t :: ts) r us := by
  rw [List.length_cons] at hn
  obtain ⟨r, us, h⟩ := ih none 0.0 ts (by omega)
  have hlen : us.length ≤ ts.length := length_le_of_climbs h
  cases r with
  | error err => exact ⟨_, _, .groupFails ht h⟩
  | ok e =>
    by_cases hclose : (pull stop us).1.kind = .operator .closeParen
    · cases us with
      | nil => contradiction
      | cons close us =>
        rw [List.length_cons] at hlen
        cases hend : atFinish us with
        | true => exact ⟨_, _, .groupLast ht h hclose hend⟩
        | false =>
          obtain ⟨r, vs, hon⟩ := ih (some e) least us (by omega)
          exact ⟨r, vs, .group ht h hclose hend hon⟩
    · exact ⟨_, _, .groupOpen ht h hclose⟩

include ih in
theorem exists_climbs_before (least : Float) {t : Token} {ts : List Token} {op : Operator}
    (hn : (t :: ts).length ≤ n) (ht : t.kind = .operator op) (hop : op.isBefore = true) :
    ∃ r us, Climbs stop none least (t :: ts) r us := by
  rw [List.length_cons] at hn
  obtain ⟨r, us, h⟩ := ih none Operator.unaryPower ts (by omega)
  have hlen : us.length ≤ ts.length := length_le_of_climbs h
  cases r with
  | error err => exact ⟨_, _, .beforeFails ht hop h⟩
  | ok e =>
    obtain ⟨r, vs, hon⟩ := ih (some (unary op e)) least us (by omega)
    exact ⟨r, vs, .before ht hop h hon⟩

include ih in
theorem exists_climbs_operand (least : Float) (ts : List Token) (hn : ts.length ≤ n) :
    ∃ r us, Climbs stop none least ts r us := by
  cases hstart : (pull stop ts).1.kind.startsOperand with
  | false => exact ⟨_, _, .noOperand hstart⟩
  | true =>
    cases ts with
    | nil => contradiction
    | cons t ts =>
      have hts : ts.length < n := hn
      cases hk : t.kind with
      | number a =>
        obtain ⟨r, us, h⟩ := ih (some (atom (.number a))) least ts hts
        exact ⟨r, us, .leaf (by rw [hk]; rfl) h⟩
      | symbol a =>
        obtain ⟨r, us, h⟩ := ih (some (atom (.symbol a))) least ts hts
        exact ⟨r, us, .leaf (by rw [hk]; rfl) h⟩
      | finish => simp [pull, hk, Token.Kind.startsOperand] at hstart
      | operator op =>
        by_cases hparen : op = .openParen
        · subst hparen
          exact exists_climbs_group ih least hn hk
        · have hop : op.isBefore = true := by
            simpa [pull, hk, Token.Kind.startsOperand, hparen] using hstart
          exact exists_climbs_before ih least hn hk hop

omit ih in
theorem exists_climbs (m : Option Expr) (least : Float) (ts : List Token) :
    ∃ r us, Climbs stop m least ts r us := by
  -- the induction is on what is left to read: an inner reading starts behind a token
  induction hn : ts.length using Nat.strongRecOn generalizing m least ts with
  | ind n ih =>
    have ih' : ∀ (m : Option Expr) (least : Float) (ts : List Token), ts.length < n →
        ∃ r us, Climbs stop m least ts r us := fun m least ts h => ih _ h m least ts rfl
    cases m with
    | none => exact exists_climbs_operand ih' least ts (Nat.le_of_eq hn)
    | some e => exact exists_climbs_behind ih' least e ts (Nat.le_of_eq hn)

omit ih in
theorem climbs_iff {m : Option Expr} {least : Float} {ts us : List Token}
    {r : Except Error Expr} : Climbs stop m least ts r us ↔ run stop m least ts = (r, us) := by
  constructor
  · exact run_eq_of_climbs
  · intro h
    obtain ⟨r', us', hclimbs⟩ : ∃ r' us', Climbs stop m least ts r' us' := exists_climbs m least ts
    have heq := run_eq_of_climbs hclimbs
    rw [h] at heq
    cases heq
    exact hclimbs

omit ih in
theorem climbs_unique {m : Option Expr} {least : Float} {ts us us' : List Token}
    {r r' : Except Error Expr} (h : Climbs stop m least ts r us)
    (h' : Climbs stop m least ts r' us') : r = r' ∧ us = us' := by
  have heq := (climbs_iff.1 h).symm.trans (climbs_iff.1 h')
  exact ⟨congrArg Prod.fst heq, congrArg Prod.snd heq⟩

end Formula.Expr
