import Formula.Expr.Parse

namespace Formula

namespace Token.Kind

def startsOperand : Kind → Bool
  | number _ | symbol _ => true
  | operator op => op = .openParen || op.isBefore
  | finish => false

def endsExpr : Kind → Bool
  | operator op => op = .closeParen
  | finish => true
  | _ => false

theorem endsExpr_eq_true_iff {k : Kind} :
    k.endsExpr = true ↔ k = .finish ∨ k = .operator .closeParen := by
  cases k <;> simp [endsExpr]

def power? (k : Kind) : Option BindingPower := k.operator?.bind Operator.power?

end Token.Kind

namespace Operator

theorem beforePower?_eq_some {op : Operator} (h : op.isBefore = true) :
    op.beforePower? = some ⟨0.0, unaryPower⟩ := by
  rw [beforePower?, if_pos h]

theorem beforePower?_eq_none {op : Operator} (h : op.isBefore = false) :
    op.beforePower? = none := by
  rw [beforePower?, h]
  rfl

theorem takes_one_of_isBefore {op : Operator} (h : op.isBefore = true) : op.takes 1 = true := by
  cases op <;> first | rfl | contradiction

theorem ne_factorial_of_takes_two {op : Operator} (h : op.takes 2 = true) : op ≠ .factorial := by
  rintro rfl
  cases h

theorem isAfter_eq_false {op : Operator} (h : op ≠ .factorial) : op.isAfter = false := by
  cases op <;> first | rfl | contradiction

end Operator

namespace Expr

/-- The next token, which is the end marker when there is none left, and what is behind it. -/
def pull (stop : Nat) : List Token → Token × List Token
  | [] => (Token.finish stop, [])
  | t :: ts => (t, ts)

theorem operationAt_unary {t : Token} {op : Operator} (h : op.takes 1 = true) (e : Expr) :
    operationAt t op [e] = .ok (unary op e) := by
  rw [operationAt, operation, if_pos h]
  rfl

theorem operationAt_binary {t : Token} {op : Operator} (h : op.takes 2 = true) (l r : Expr) :
    operationAt t op [l, r] = .ok (binary op l r) := by
  rw [operationAt, operation, if_pos h]
  rfl

theorem operationAt_misuse {t : Token} {op : Operator} (h : op.takes 2 = false) (l r : Expr) :
    operationAt t op [l, r] = .error t.unexpected := by
  rw [operationAt, operation, if_neg (by simp [h])]
  rfl

/-- Without a tree the reader looks for an operand; with one it stands behind that tree. -/
inductive Climbs (stop : Nat) :
    Option Expr → Float → List Token → Except Error Expr → List Token → Prop
  | leaf {least : Float} {t : Token} {ts us : List Token} {a : Atom} {r : Except Error Expr}
      (ht : t.kind.atom? = some a) (h : Climbs stop (some (atom a)) least ts r us) :
      Climbs stop none least (t :: ts) r us
  | groupFails {least : Float} {t : Token} {ts us : List Token} {err : Error}
      (ht : t.kind = .operator .openParen) (h : Climbs stop none 0.0 ts (.error err) us) :
      Climbs stop none least (t :: ts) (.error err) us
  | groupOpen {least : Float} {t : Token} {ts us : List Token} {e : Expr}
      (ht : t.kind = .operator .openParen) (h : Climbs stop none 0.0 ts (.ok e) us)
      (hclose : (pull stop us).1.kind ≠ .operator .closeParen) :
      Climbs stop none least (t :: ts) (.error (unmatched t (pull stop us).1)) (pull stop us).2
  | groupLast {least : Float} {t close : Token} {ts us : List Token} {e : Expr}
      (ht : t.kind = .operator .openParen) (h : Climbs stop none 0.0 ts (.ok e) (close :: us))
      (hclose : close.kind = .operator .closeParen) (hend : atFinish us = true) :
      Climbs stop none least (t :: ts) (.ok e) us
  | group {least : Float} {t close : Token} {ts us vs : List Token} {e : Expr}
      {r : Except Error Expr} (ht : t.kind = .operator .openParen)
      (h : Climbs stop none 0.0 ts (.ok e) (close :: us))
      (hclose : close.kind = .operator .closeParen) (hend : atFinish us = false)
      (hon : Climbs stop (some e) least us r vs) : Climbs stop none least (t :: ts) r vs
  | beforeFails {least : Float} {t : Token} {ts us : List Token} {op : Operator} {err : Error}
      (ht : t.kind = .operator op) (hop : op.isBefore = true)
      (h : Climbs stop none Operator.unaryPower ts (.error err) us) :
      Climbs stop none least (t :: ts) (.error err) us
  | before {least : Float} {t : Token} {ts us vs : List Token} {op : Operator} {e : Expr}
      {r : Except Error Expr} (ht : t.kind = .operator op) (hop : op.isBefore = true)
      (h : Climbs stop none Operator.unaryPower ts (.ok e) us)
      (hon : Climbs stop (some (unary op e)) least us r vs) :
      Climbs stop none least (t :: ts) r vs
  | noOperand {least : Float} {ts : List Token}
      (ht : (pull stop ts).1.kind.startsOperand = false) :
      Climbs stop none least ts (.error (pull stop ts).1.unexpected) (pull stop ts).2
  | ends {least : Float} {e : Expr} {ts : List Token}
      (ht : (pull stop ts).1.kind.endsExpr = true) :
      Climbs stop (some e) least ts (.ok e) ((pull stop ts).1 :: (pull stop ts).2)
  | after {least : Float} {e : Expr} {t : Token} {ts us : List Token} {r : Except Error Expr}
      (ht : t.kind = .operator .factorial)
      (hon : Climbs stop (some (unary .factorial e)) least ts r us) :
      Climbs stop (some e) least (t :: ts) r us
  | cutOff {least : Float} {e : Expr} {t : Token} {ts : List Token} {op : Operator}
      {p : BindingPower} (ht : t.kind = .operator op) (hop : op.power? = some p)
      (hafter : op ≠ .factorial) (hp : p.left < least) :
      Climbs stop (some e) least (t :: ts) (.ok e) (t :: ts)
  | betweenFails {least : Float} {e : Expr} {t : Token} {ts us : List Token} {op : Operator}
      {p : BindingPower} {err : Error} (ht : t.kind = .operator op) (hop : op.power? = some p)
      (hafter : op ≠ .factorial) (hp : ¬ p.left < least)
      (h : Climbs stop none p.right ts (.error err) us) :
      Climbs stop (some e) least (t :: ts) (.error err) us
  | misuse {least : Float} {e right : Expr} {t : Token} {ts us : List Token} {op : Operator}
      {p : BindingPower} (ht : t.kind = .operator op) (hop : op.power? = some p)
      (hafter : op ≠ .factorial) (hp : ¬ p.left < least) (htakes : op.takes 2 = false)
      (h : Climbs stop none p.right ts (.ok right) us) :
      Climbs stop (some e) least (t :: ts) (.error t.unexpected) us
  | between {least : Float} {e right : Expr} {t : Token} {ts us vs : List Token} {op : Operator}
      {p : BindingPower} {r : Except Error Expr} (ht : t.kind = .operator op)
      (hop : op.power? = some p) (hp : ¬ p.left < least) (htakes : op.takes 2 = true)
      (h : Climbs stop none p.right ts (.ok right) us)
      (hon : Climbs stop (some (binary op e right)) least us r vs) :
      Climbs stop (some e) least (t :: ts) r vs
  | noOperator {least : Float} {e : Expr} {t : Token} {ts : List Token}
      (hend : t.kind.endsExpr = false) (ht : t.kind.power? = none) :
      Climbs stop (some e) least (t :: ts) (.error t.unexpected) ts

def run (stop : Nat) : Option Expr → Float → List Token → Except Error Expr × List Token
  | none, least, ts => (climb stop least ts).1
  | some e, least, ts => (climbOn stop least e ts).1

theorem andThen_error {m n : Nat} {h : m ≤ n} {r : Reading m} {err : Error} {ts : List Token}
    {next : Expr → (ts : List Token) → ts.length ≤ m → Reading n} (hr : r.1 = (.error err, ts)) :
    (r.andThen h next).1 = (.error err, ts) := by
  obtain ⟨r, hlen⟩ := r
  subst hr
  rfl

theorem length_le_of_reading {n : Nat} {r : Reading n} {x : Except Error Expr} {ts : List Token}
    (hr : r.1 = (x, ts)) : ts.length ≤ n := by
  have h := r.2
  rwa [hr] at h

theorem andThen_ok {m n : Nat} {h : m ≤ n} {r : Reading m} {e : Expr} {ts : List Token}
    {next : Expr → (ts : List Token) → ts.length ≤ m → Reading n} (hr : r.1 = (.ok e, ts)) :
    (r.andThen h next).1 = (next e ts (length_le_of_reading hr)).1 := by
  have hread : r = ⟨(.ok e, ts), length_le_of_reading hr⟩ := Subtype.ext hr
  generalize length_le_of_reading hr = hlen at hread
  rw [hread]
  rfl

theorem climb_before {stop : Nat} {least : Float} {t : Token} {op : Operator}
    (ht : t.kind = .operator op) (hop : op.isBefore = true) (ts : List Token) :
    (climb stop least (t :: ts)).1 =
      ((climb stop Operator.unaryPower ts).andThen (Nat.le_succ _) fun operand us h =>
        (climbOn stop least (unary op operand) us).widen (Nat.succ_le_succ h)).1 := by
  have hparen : op ≠ .openParen := by
    rintro rfl
    cases hop
  rw [climb]
  simp only [ht, Operator.beforePower?_eq_some hop,
    operationAt_unary (Operator.takes_one_of_isBefore hop)]

theorem climbOn_operator {stop : Nat} {least : Float} {e : Expr} {t : Token} {op : Operator}
    {p : BindingPower} (ht : t.kind = .operator op) (hop : op.power? = some p)
    (hafter : op ≠ .factorial) (ts : List Token) : (climbOn stop least e (t :: ts)).1 =
      (if p.left < least then Reading.done (n := ts.length + 2) e (t :: ts) (Nat.le_succ _)
      else (climb stop p.right ts).andThen (Nat.le_add_right _ 2) fun right us h =>
        match operationAt t op [e, right] with
        | .error err => .fail err us (Nat.le_succ_of_le (Nat.le_succ_of_le h))
        | .ok e =>
          (climbOn stop least e us).widen (Nat.le_succ_of_le (Nat.succ_le_succ h))).1 := by
  have hclose : op ≠ .closeParen := by
    rintro rfl
    cases hop
  rw [climbOn]
  simp only [ht, Operator.isAfter_eq_false hafter, hop]
  rfl

theorem run_noOperand {stop : Nat} {least : Float} {ts : List Token}
    (h : (pull stop ts).1.kind.startsOperand = false) :
    run stop none least ts = (.error (pull stop ts).1.unexpected, (pull stop ts).2) := by
  cases ts with
  | nil =>
    rw [run, climb]
    rfl
  | cons t ts =>
    rw [pull] at h ⊢
    rw [run, climb]
    cases hk : t.kind with
    | number n =>
      rw [hk] at h
      cases h
    | symbol s =>
      rw [hk] at h
      cases h
    | finish => rfl
    | operator op =>
      rw [hk, Token.Kind.startsOperand, Bool.or_eq_false_iff] at h
      have hparen : op ≠ .openParen := of_decide_eq_false h.1
      simp only [Operator.beforePower?_eq_none h.2]
      rfl

theorem run_ends {stop : Nat} {least : Float} {e : Expr} {ts : List Token}
    (h : (pull stop ts).1.kind.endsExpr = true) :
    run stop (some e) least ts = (.ok e, (pull stop ts).1 :: (pull stop ts).2) := by
  cases ts with
  | nil =>
    rw [run, climbOn]
    rfl
  | cons t ts =>
    have hends : t.kind.endsExpr = true := h
    rw [run, climbOn]
    obtain hk | hk := Token.Kind.endsExpr_eq_true_iff.1 hends
    · simp only [hk]
      rfl
    · simp only [hk]
      rfl

theorem run_noOperator {stop : Nat} {least : Float} {e : Expr} {t : Token}
    (hend : t.kind.endsExpr = false) (h : t.kind.power? = none) (ts : List Token) :
    run stop (some e) least (t :: ts) = (.error t.unexpected, ts) := by
  rw [run, climbOn]
  cases hk : t.kind with
  | number n => rfl
  | symbol s => rfl
  | finish =>
    rw [hk] at hend
    cases hend
  | operator op =>
    rw [hk] at hend h
    have hclose : op ≠ .closeParen := of_decide_eq_false hend
    have hop : op.power? = none := h
    have hafter : op ≠ .factorial := by
      rintro rfl
      cases hop
    simp only [Operator.isAfter_eq_false hafter, hop]
    rfl

theorem run_eq_of_climbs {stop : Nat} {m : Option Expr} {least : Float} {ts us : List Token}
    {r : Except Error Expr} (h : Climbs stop m least ts r us) : run stop m least ts = (r, us) := by
  induction h with
  | @leaf least t ts us a r ht h ih =>
    rw [← ih, run, run, climb]
    cases hk : t.kind <;> simp_all [Token.Kind.atom?]
  | groupFails ht h ih =>
    rw [run, climb]
    simp only [ht]
    exact andThen_error ih
  | groupOpen ht h hclose ih =>
    rw [run, climb]
    simp only [ht]
    rw [andThen_ok ih]
    split
    · rfl
    · simp only [pull] at hclose
      rw [if_neg hclose]
      rfl
  | groupLast ht h hclose hend ih =>
    rw [run, climb]
    simp only [ht]
    rw [andThen_ok ih]
    simp only [hclose, hend, if_true]
    rfl
  | group ht h hclose hend hon ih ihOn =>
    rw [run, climb]
    simp only [ht]
    rw [andThen_ok ih]
    simp only [hclose, hend, if_true, Bool.false_eq_true, if_false]
    exact ihOn
  | beforeFails ht hop h ih =>
    rw [run, climb_before ht hop]
    exact andThen_error ih
  | before ht hop h hon ih ihOn =>
    rw [run, climb_before ht hop, andThen_ok ih]
    exact ihOn
  | noOperand ht => exact run_noOperand ht
  | ends ht => exact run_ends ht
  | after ht hon ih =>
    rw [run, climbOn]
    simp only [ht]
    exact ih
  | cutOff ht hop hafter hp =>
    rw [run, climbOn_operator ht hop hafter, if_pos hp]
    rfl
  | betweenFails ht hop hafter hp h ih =>
    rw [run, climbOn_operator ht hop hafter, if_neg hp]
    exact andThen_error ih
  | misuse ht hop hafter hp htakes h ih =>
    rw [run, climbOn_operator ht hop hafter, if_neg hp, andThen_ok ih]
    simp only [operationAt_misuse htakes]
    rfl
  | between ht hop hp htakes h hon ih ihOn =>
    have hafter := Operator.ne_factorial_of_takes_two htakes
    rw [run, climbOn_operator ht hop hafter, if_neg hp, andThen_ok ih]
    simp only [operationAt_binary htakes]
    exact ihOn
  | noOperator hend ht => exact run_noOperator hend ht _

end Expr

end Formula
