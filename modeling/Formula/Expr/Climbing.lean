import Formula.Expr
import Formula.TokenStream

namespace Formula.Expr

/-- A tree or an error, and the tokens behind what was read, at most `n` of them. -/
abbrev Reading (n : Nat) := { r : Except Error Expr × List Token // r.2.length ≤ n }

namespace Reading

def fail {n : Nat} (e : Error) (ts : List Token) (h : ts.length ≤ n) : Reading n :=
  ⟨(.error e, ts), h⟩

def done {n : Nat} (e : Expr) (ts : List Token) (h : ts.length ≤ n) : Reading n :=
  ⟨(.ok e, ts), h⟩

def widen {m n : Nat} (h : m ≤ n) (r : Reading m) : Reading n := ⟨r.1, Nat.le_trans r.2 h⟩

def andThen {m n : Nat} (h : m ≤ n) (r : Reading m)
    (next : Expr → (ts : List Token) → ts.length ≤ m → Reading n) : Reading n :=
  match r with
  | ⟨(.error e, ts), hr⟩ => fail e ts (Nat.le_trans hr h)
  | ⟨(.ok e, ts), hr⟩ => next e ts hr

end Reading

/-- An operator without a meaning for its operands has no place where `t` stands. -/
def operationAt (t : Token) (op : Operator) (operands : List Expr) : Except Error Expr :=
  (operation op operands).mapError fun _ => t.unexpected

def unmatched (start close : Token) : Error :=
  ⟨.unmatchedParenthesis, ⟨start.span.start, close.span.stop⟩⟩

def atFinish : List Token → Bool
  | [] => true
  | t :: _ => t.kind = .finish

mutual

/-- Reads an operand and the operators behind it whose left power is at least `least`. The source
ends at `stop`. A parenthesis that closes at the end marker ends the reading at once. -/
def climb (stop : Nat) (least : Float) : (ts : List Token) → Reading ts.length
  | [] => .fail (Token.finish stop).unexpected [] (Nat.le_refl 0)
  | t :: ts =>
    match t.kind with
    | .number n => climbOn stop least (atom (.number n)) ts
    | .symbol s => climbOn stop least (atom (.symbol s)) ts
    | .operator .openParen =>
      (climb stop 0.0 ts).andThen (Nat.le_succ _) fun inner us h =>
        match us with
        | [] => .fail (unmatched t (Token.finish stop)) [] (Nat.zero_le _)
        | close :: us =>
          have h : us.length + 1 ≤ ts.length := h
          if close.kind = .operator .closeParen then
            if atFinish us then .done inner us (by simp only [List.length_cons]; omega)
            else (climbOn stop least inner us).widen (Nat.le_succ_of_le h)
          else .fail (unmatched t close) us (by simp only [List.length_cons]; omega)
    | .operator op =>
      match op.beforePower? with
      | none => .fail t.unexpected ts (Nat.le_succ _)
      | some p =>
        (climb stop p.right ts).andThen (Nat.le_succ _) fun operand us h =>
          match operationAt t op [operand] with
          | .error e => .fail e us (Nat.le_succ_of_le h)
          | .ok e => (climbOn stop least e us).widen (Nat.succ_le_succ h)
    | .finish => .fail t.unexpected ts (Nat.le_succ _)
termination_by ts => ts.length
decreasing_by all_goals simp only [List.length_cons]; omega

/-- Reads the operators behind the operand `e`. An end marker is put back even if it was none of
the tokens, so that one may be left where there were none. -/
def climbOn (stop : Nat) (least : Float) (e : Expr) : (ts : List Token) → Reading (ts.length + 1)
  | [] => .done e [Token.finish stop] (Nat.le_refl 1)
  | t :: ts =>
    match t.kind with
    | .finish => .done e (t :: ts) (Nat.le_succ _)
    | .operator .closeParen => .done e (t :: ts) (Nat.le_succ _)
    | .operator op =>
      if op.isAfter then
        match operationAt t op [e] with
        | .error err => .fail err ts (Nat.le_add_right _ 2)
        | .ok e => (climbOn stop least e ts).widen (Nat.le_succ _)
      else
        match op.power? with
        | none => .fail t.unexpected ts (Nat.le_add_right _ 2)
        | some p =>
          if p.left < least then .done e (t :: ts) (Nat.le_succ _)
          else
            (climb stop p.right ts).andThen (Nat.le_add_right _ 2) fun right us h =>
              match operationAt t op [e, right] with
              | .error err => .fail err us (Nat.le_succ_of_le (Nat.le_succ_of_le h))
              | .ok e => (climbOn stop least e us).widen (Nat.le_succ_of_le (Nat.succ_le_succ h))
    | _ => .fail t.unexpected ts (Nat.le_add_right _ 2)
termination_by ts => ts.length
decreasing_by all_goals simp only [List.length_cons]; omega

end

end Formula.Expr
