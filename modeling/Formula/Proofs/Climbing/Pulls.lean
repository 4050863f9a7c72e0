import Formula.Expr.Parse

namespace Formula

open Formula.Expr

def Expr.Reading.onStream {n : Nat} (stop : Nat) (r : Reading n) :
    Except Error Expr × TokenStream := (r.1.1, ⟨r.1.2, stop⟩)

namespace TokenStream

def readOn (s : TokenStream) (least : Float) (e : Expr) : Except Error Expr × TokenStream :=
  (climbOn s.stop least e s.tokens).onStream s.stop

def andThen (r : Except Error Expr × TokenStream)
    (next : Expr → TokenStream → Except Error Expr × TokenStream) :
    Except Error Expr × TokenStream :=
  match r with
  | (.error e, s) => (.error e, s)
  | (.ok e, s) => next e s

variable {stop : Nat} {least : Float}

theorem onStream_climb (ts : List Token) :
    (climb stop least ts).onStream stop = readExpr ⟨ts, stop⟩ least := rfl

theorem onStream_andThen {m n : Nat} {h : m ≤ n} {r : Reading m}
    {next : Expr → (ts : List Token) → ts.length ≤ m → Reading n}
    {next' : Expr → TokenStream → Except Error Expr × TokenStream}
    (hnext : ∀ e ts hts, (next e ts hts).onStream stop = next' e ⟨ts, stop⟩) :
    (r.andThen h next).onStream stop = andThen (r.onStream stop) next' := by
  obtain ⟨⟨_ | e, ts⟩, hts⟩ := r
  · rfl
  · exact hnext e ts hts

theorem atFinish_iff {ts : List Token} :
    atFinish ts = true ↔ peek ⟨ts, stop⟩ = .finish := by
  cases ts <;> simp [atFinish, peek]

theorem next_cons (t : Token) (ts : List Token) : next ⟨t :: ts, stop⟩ = (t, ⟨ts, stop⟩) := rfl

/-- Reading an operand takes tokens off the stream one by one, and looks at the one behind a
parenthesis that closes. -/
theorem readExpr_eq (s : TokenStream) (least : Float) : s.readExpr least =
    let (t, s) := s.next
    match t.kind with
    | .number n => s.readOn least (atom (.number n))
    | .symbol x => s.readOn least (atom (.symbol x))
    | .operator .openParen =>
      andThen (s.readExpr 0.0) fun inner s =>
        let (close, s) := s.next
        if close.kind = .operator .closeParen then
          if s.peek = .finish then (.ok inner, s) else s.readOn least inner
        else (.error (unmatched t close), s)
    | .operator op =>
      match op.beforePower? with
      | none => (.error t.unexpected, s)
      | some p =>
        andThen (s.readExpr p.right) fun operand s =>
          match operationAt t op [operand] with
          | .error e => (.error e, s)
          | .ok e => s.readOn least e
    | .finish => (.error t.unexpected, s) := by
  obtain ⟨_ | ⟨⟨kind, span⟩, ts⟩, stop⟩ := s
  · rw [readExpr, climb]
    rfl
  rw [← onStream_climb, climb]
  cases kind with
  | number n => rfl
  | symbol x => rfl
  | finish => rfl
  | operator op =>
    by_cases hparen : op = .openParen
    · subst hparen
      apply onStream_andThen
      intro inner us hus
      obtain _ | ⟨close, us⟩ := us
      · rfl
      rw [next_cons]
      dsimp only
      by_cases hclose : close.kind = .operator .closeParen
      · by_cases hend : atFinish us = true
        · rw [if_pos hclose, if_pos hend, if_pos hclose, if_pos (atFinish_iff.1 hend)]
          rfl
        · rw [if_pos hclose, if_neg hend, if_pos hclose, if_neg (mt atFinish_iff.2 hend)]
          rfl
      · rw [if_neg hclose, if_neg hclose]
        rfl
    · simp only [next]
      cases hop : op.beforePower? with
      | none => rfl
      | some p =>
        apply onStream_andThen
        intro operand us hus
        cases operationAt ⟨.operator op, span⟩ op [operand] <;> rfl

/-- Reading on behind an operand takes a token off the stream, and puts it back where it is not part
of the expression. -/
theorem readOn_eq (s : TokenStream) (least : Float) (e : Expr) : s.readOn least e =
    let (t, s) := s.next
    match t.kind with
    | .finish | .operator .closeParen => (.ok e, s.rollBack t)
    | .operator op =>
      if op.isAfter then
        match operationAt t op [e] with
        | .error err => (.error err, s)
        | .ok e => s.readOn least e
      else
        match op.power? with
        | none => (.error t.unexpected, s)
        | some p =>
          if p.left < least then (.ok e, s.rollBack t)
          else
            andThen (s.readExpr p.right) fun right s =>
              match operationAt t op [e, right] with
              | .error err => (.error err, s)
              | .ok e => s.readOn least e
    | _ => (.error t.unexpected, s) := by
  obtain ⟨_ | ⟨⟨kind, span⟩, ts⟩, stop⟩ := s
  · rw [readOn, climbOn]
    rfl
  rw [readOn, climbOn]
  cases kind with
  | number n => rfl
  | symbol x => rfl
  | finish => rfl
  | operator op =>
    by_cases hparen : op = .closeParen
    · subst hparen
      rfl
    cases hafter : op.isAfter with
    | true =>
      simp only [next_cons, hafter, if_true]
      cases operationAt ⟨.operator op, span⟩ op [e] <;> rfl
    | false =>
      simp only [next_cons, hafter, Bool.false_eq_true, if_false]
      cases hop : op.power? with
      | none => rfl
      | some p =>
        simp only
        by_cases hp : p.left < least
        · rw [if_pos hp, if_pos hp]
          rfl
        · rw [if_neg hp, if_neg hp]
          apply onStream_andThen
          intro right us hus
          cases operationAt ⟨.operator op, span⟩ op [e, right] <;> rfl

end TokenStream

end Formula
