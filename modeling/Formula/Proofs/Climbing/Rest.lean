import Formula.Proofs.Climbing.Totality

namespace Formula

theorem Operator.not_left_lt_zero {op : Operator} {p : BindingPower} (h : op.power? = some p) :
    ¬ p.left < 0.0 := by
  cases op <;> cases h <;> decide

namespace Expr

variable {stop : Nat}

/-- The tokens in front of the first end marker. -/
def body (ts : List Token) : List Token := ts.takeWhile fun t => t.kind ≠ .finish

theorem body_cons {t : Token} (h : t.kind ≠ .finish) (ts : List Token) :
    body (t :: ts) = t :: body ts := by
  rw [body, List.takeWhile_cons_of_pos (by simpa using h), body]

theorem body_finish {t : Token} (h : t.kind = .finish) (ts : List Token) : body (t :: ts) = [] := by
  rw [body, List.takeWhile_cons_of_neg (by simpa using h)]

theorem body_pull (stop : Nat) (ts : List Token) :
    body ((pull stop ts).1 :: (pull stop ts).2) = body ts := by
  cases ts with
  | nil => exact body_finish rfl []
  | cons t ts => rfl

theorem body_append_finish {ts : List Token} (h : ∀ t ∈ ts, t.kind ≠ .finish) (n : Nat) :
    body (ts ++ [Token.finish n]) = ts := by
  rw [body, List.takeWhile_append_of_pos (by simpa using h),
    List.takeWhile_cons_of_neg (by simp [Token.finish]), List.append_nil]

/-- Where an expression ends, there is the end marker, a closing parenthesis, or an operator that
does not hold it tightly enough. -/
def Ends (stop : Nat) (least : Float) (ts : List Token) : Prop :=
  (pull stop ts).1.kind.endsExpr = true ∨
    ∃ op p, (pull stop ts).1.kind = .operator op ∧ op.power? = some p ∧ op ≠ .factorial ∧
      p.left < least

theorem endsExpr_of_ends {ts : List Token} (h : Ends stop 0.0 ts) :
    (pull stop ts).1.kind.endsExpr = true := by
  obtain hend | ⟨op, p, ht, hp, hafter, hleft⟩ := h
  · exact hend
  · exact absurd hleft (Operator.not_left_lt_zero hp)

theorem pull_of_atFinish {ts : List Token} (h : atFinish ts = true) :
    (pull stop ts).1.kind = .finish := by
  cases ts with
  | nil => rfl
  | cons t ts => exact of_decide_eq_true h

theorem ends_of_climbs {m : Option Expr} {least : Float} {ts us : List Token} {e : Expr}
    (h : Climbs stop m least ts (.ok e) us) : Ends stop least us := by
  generalize hr : (Except.ok e : Except Error Expr) = r at h
  induction h with
  | leaf ht h ih => exact ih hr
  | groupLast ht h hclose hend ih =>
    refine Or.inl ?_
    rw [pull_of_atFinish hend]
    rfl
  | group ht h hclose hend hon ih ihOn => exact ihOn hr
  | before ht hop h hon ih ihOn => exact ihOn hr
  | ends ht => exact Or.inl ht
  | after ht hon ih => exact ih hr
  | cutOff ht hop hafter hp => exact Or.inr ⟨_, _, ht, hop, hafter, hp⟩
  | between ht hop hp htakes h hon ih ihOn => exact ihOn hr
  | _ => cases hr

end Expr

namespace TokenStream

open Formula.Expr

variable {s : TokenStream} {r : Except Error Expr} {us : List Token}

theorem readExpr_of_climbs {least : Float} (h : Climbs s.stop none least s.tokens r us) :
    s.readExpr least = (r, { s with tokens := us }) := by
  have hrun := run_eq_of_climbs h
  rw [run] at hrun
  rw [readExpr, hrun]

theorem readWhole_of_climbs (h : Climbs s.stop none 0.0 s.tokens r us) :
    s.readWhole = r.bind fun e =>
      if (pull s.stop us).1.kind = .finish then .ok e
      else .error (pull s.stop us).1.unexpected := by
  rw [readWhole, readExpr_of_climbs h]
  cases r with
  | error err => rfl
  | ok e =>
    cases us with
    | nil => rfl
    | cons t us => rfl

end TokenStream

end Formula
