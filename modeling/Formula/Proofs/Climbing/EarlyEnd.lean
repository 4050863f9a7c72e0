import Formula.Proofs.Climbing.Rest

namespace Formula

namespace Expr

mutual

/-- Reads as `climb` does if `early`, and otherwise without the rule for the end marker. -/
def climbIf (early : Bool) (stop : Nat) (least : Float) : (ts : List Token) → Reading ts.length
  | [] => .fail (Token.finish stop).unexpected [] (Nat.le_refl 0)
  | t :: ts =>
    match t.kind with
    | .number n => climbOnIf early stop least (atom (.number n)) ts
    | .symbol s => climbOnIf early stop least (atom (.symbol s)) ts
    | .operator .openParen =>
      (climbIf early stop 0.0 ts).andThen (Nat.le_succ _) fun inner us h =>
        match us with
        | [] => .fail (unmatched t (Token.finish stop)) [] (Nat.zero_le _)
        | close :: us =>
          have h : us.length + 1 ≤ ts.length := h
          if close.kind = .operator .closeParen then
            if early && atFinish us then .done inner us (by simp only [List.length_cons]; omega)
            else (climbOnIf early stop least inner us).widen (Nat.le_succ_of_le h)
          else .fail (unmatched t close) us (by simp only [List.length_cons]; omega)
    | .operator op =>
      match op.beforePower? with
      | none => .fail t.unexpected ts (Nat.le_succ _)
      | some p =>
        (climbIf early stop p.right ts).andThen (Nat.le_succ _) fun operand us h =>
          match operationAt t op [operand] with
          | .error e => .fail e us (Nat.le_succ_of_le h)
          | .ok e => (climbOnIf early stop least e us).widen (Nat.succ_le_succ h)
    | .finish => .fail t.unexpected ts (Nat.le_succ _)
termination_by ts => ts.length
decreasing_by all_goals simp only [List.length_cons]; omega

def climbOnIf (early : Bool) (stop : Nat) (least : Float) (e : Expr) :
    (ts : List Token) → Reading (ts.length + 1)
  | [] => .done e [Token.finish stop] (Nat.le_refl 1)
  | t :: ts =>
    match t.kind with
    | .finish => .done e (t :: ts) (Nat.le_succ _)
    | .operator .closeParen => .done e (t :: ts) (Nat.le_succ _)
    | .operator op =>
      if op.isAfter then
        match operationAt t op [e] with
        | .error err => .fail err ts (Nat.le_add_right _ 2)
        | .ok e => (climbOnIf early stop least e ts).widen (Nat.le_succ _)
      else
        match op.power? with
        | none => .fail t.unexpected ts (Nat.le_add_right _ 2)
        | some p =>
          if p.left < least then .done e (t :: ts) (Nat.le_succ _)
          else
            (climbIf early stop p.right ts).andThen (Nat.le_add_right _ 2) fun right us h =>
              match operationAt t op [e, right] with
              | .error err => .fail err us (Nat.le_succ_of_le (Nat.le_succ_of_le h))
              | .ok e =>
                (climbOnIf early stop least e us).widen (Nat.le_succ_of_le (Nat.succ_le_succ h))
    | _ => .fail t.unexpected ts (Nat.le_add_right _ 2)
termination_by ts => ts.length
decreasing_by all_goals simp only [List.length_cons]; omega

end

def runIf (early : Bool) (stop : Nat) :
    Option Expr → Float → List Token → Except Error Expr × List Token
  | none, least, ts => (climbIf early stop least ts).1
  | some e, least, ts => (climbOnIf early stop least e ts).1

/-- The same tokens are left, or nothing where the reader without the rule has put back the end
marker. -/
def Resembles (early : Bool) (stop : Nat) (us vs : List Token) : Prop :=
  vs = us ∨ early = false ∧ us = [] ∧ vs = [Token.finish stop]

def ReadsAlike (early : Bool) (stop : Nat) (x y : Except Error Expr × List Token) : Prop :=
  y.1 = x.1 ∧ Resembles early stop x.2 y.2

variable {early : Bool} {stop : Nat} {us vs : List Token}

theorem Resembles.refl (us : List Token) : Resembles early stop us us := Or.inl rfl

theorem Resembles.eq_cons {t : Token} (h : Resembles early stop (t :: us) vs) : vs = t :: us := by
  obtain h | ⟨-, h, -⟩ := h
  · exact h
  · cases h

theorem Resembles.eq_of_early (h : Resembles true stop us vs) : vs = us := by
  obtain h | ⟨h, -⟩ := h
  · exact h
  · cases h

theorem ReadsAlike.refl (x : Except Error Expr × List Token) : ReadsAlike early stop x x :=
  ⟨rfl, .refl x.2⟩

theorem ReadsAlike.andThen {l m n : Nat} {h : l ≤ n} {h' : m ≤ n} {r : Reading l} {r' : Reading m}
    {next : Expr → (us : List Token) → us.length ≤ l → Reading n}
    {next' : Expr → (us : List Token) → us.length ≤ m → Reading n}
    (hr : ReadsAlike early stop r.1 r'.1)
    (hnext : ∀ e us vs hus hvs, Resembles early stop us vs →
      ReadsAlike early stop (next e us hus).1 (next' e vs hvs).1) :
    ReadsAlike early stop (r.andThen h next).1 (r'.andThen h' next').1 := by
  obtain ⟨⟨result, us⟩, hus⟩ := r
  obtain ⟨⟨result', vs⟩, hvs⟩ := r'
  obtain ⟨hresult, hrest⟩ := hr
  dsimp only at hresult hrest
  subst hresult
  cases result' with
  | error err => exact ⟨rfl, hrest⟩
  | ok e => exact hnext e us vs hus hvs hrest

theorem readsAlike_atFinish (least : Float) (e : Expr) (h : atFinish us = true) :
    ReadsAlike false stop (.ok e, us) (climbOnIf false stop least e us).1 := by
  cases us with
  | nil =>
    rw [climbOnIf]
    exact ⟨rfl, Or.inr ⟨rfl, rfl, rfl⟩⟩
  | cons t us =>
    have ht : t.kind = .finish := of_decide_eq_true h
    rw [climbOnIf]
    simp only [ht]
    exact .refl _

variable {n : Nat}
  (ih : ∀ (m : Option Expr) (least : Float) (us vs : List Token), us.length < n →
    Resembles early stop us vs → ReadsAlike early stop (run stop m least us)
      (runIf early stop m least vs))

include ih in
theorem readsAlike_group (least : Float) {t : Token} {ts : List Token}
    (hn : (t :: ts).length ≤ n) (ht : t.kind = .operator .openParen) :
    ReadsAlike early stop (run stop none least (t :: ts))
      (runIf early stop none least (t :: ts)) := by
  rw [List.length_cons] at hn
  rw [run, climb, runIf, climbIf]
  simp only [ht]
  apply ReadsAlike.andThen
  · exact ih none 0.0 ts ts hn (.refl ts)
  · intro e us vs hus hvs hrest
    cases us with
    | nil =>
      obtain rfl | ⟨-, -, rfl⟩ := hrest
      · exact .refl _
      · exact .refl _
    | cons close us =>
      obtain rfl := hrest.eq_cons
      rw [List.length_cons] at hus
      dsimp only
      split
      · cases hend : atFinish us with
        | true =>
          cases early with
          | true => exact .refl _
          | false => exact readsAlike_atFinish least e hend
        | false =>
          rw [Bool.and_false]
          exact ih (some e) least us us (by omega) (.refl us)
      · exact .refl _

include ih in
theorem readsAlike_before (least : Float) {t : Token} {ts : List Token} {op : Operator}
    (hn : (t :: ts).length ≤ n) (ht : t.kind = .operator op) (hop : op ≠ .openParen) :
    ReadsAlike early stop (run stop none least (t :: ts))
      (runIf early stop none least (t :: ts)) := by
  rw [List.length_cons] at hn
  rw [run, climb, runIf, climbIf]
  simp only [ht]
  cases hp : op.beforePower? with
  | none => exact .refl _
  | some p =>
    apply ReadsAlike.andThen
    · exact ih none p.right ts ts hn (.refl ts)
    · intro e us vs hus hvs hrest
      cases operationAt t op [e] with
      | error err => exact ⟨rfl, hrest⟩
      | ok e => exact ih (some e) least us vs (by omega) hrest

include ih in
theorem readsAlike_operand (least : Float) (ts : List Token) (hn : ts.length ≤ n) :
    ReadsAlike early stop (run stop none least ts) (runIf early stop none least ts) := by
  cases ts with
  | nil =>
    rw [run, climb, runIf, climbIf]
    exact .refl _
  | cons t ts =>
    have hts : ts.length < n := hn
    cases hk : t.kind with
    | number a =>
      rw [run, climb, runIf, climbIf]
      simp only [hk]
      exact ih (some (atom (.number a))) least ts ts hts (.refl ts)
    | symbol a =>
      rw [run, climb, runIf, climbIf]
      simp only [hk]
      exact ih (some (atom (.symbol a))) least ts ts hts (.refl ts)
    | finish =>
      rw [run, climb, runIf, climbIf]
      simp only [hk]
      exact .refl _
    | operator op =>
      by_cases hop : op = .openParen
      · subst hop
        exact readsAlike_group ih least hn hk
      · exact readsAlike_before ih least hn hk hop

include ih in
theorem readsAlike_between (least : Float) (e : Expr) {t : Token} {ts : List Token} {op : Operator}
    (hn : (t :: ts).length ≤ n) (ht : t.kind = .operator op) (hop : op ≠ .closeParen) :
    ReadsAlike early stop (run stop (some e) least (t :: ts))
      (runIf early stop (some e) least (t :: ts)) := by
  rw [List.length_cons] at hn
  rw [run, climbOn, runIf, climbOnIf]
  simp only [ht]
  by_cases hafter : op.isAfter = true
  · simp only [hafter, if_true]
    cases operationAt t op [e] with
    | error err => exact .refl _
    | ok e => exact ih (some e) least ts ts hn (.refl ts)
  · simp only [hafter, Bool.false_eq_true, if_false]
    cases hp : op.power? with
    | none => exact .refl _
    | some p =>
      by_cases hcut : p.left < least
      · simp only [hcut, if_true]
        exact .refl _
      · simp only [hcut, if_false]
        apply ReadsAlike.andThen
        · exact ih none p.right ts ts hn (.refl ts)
        · intro right us vs hus hvs hrest
          cases operationAt t op [e, right] with
          | error err => exact ⟨rfl, hrest⟩
          | ok e => exact ih (some e) least us vs (by omega) hrest

include ih in
theorem readsAlike_behind (least : Float) (e : Expr) (ts : List Token) (hn : ts.length ≤ n) :
    ReadsAlike early stop (run stop (some e) least ts) (runIf early stop (some e) least ts) := by
  cases ts with
  | nil =>
    rw [run, climbOn, runIf, climbOnIf]
    exact .refl _
  | cons t ts =>
    cases hk : t.kind with
    | operator op =>
      by_cases hop : op = .closeParen
      · subst hop
        rw [run, climbOn, runIf, climbOnIf]
        simp only [hk]
        exact .refl _
      · exact readsAlike_between ih least e hn hk hop
    | _ =>
      rw [run, climbOn, runIf, climbOnIf]
      simp only [hk]
      exact .refl _

omit ih in
/-- From what is alike, both readers come to the same results, and to what is alike again. -/
theorem readsAlike_runIf (m : Option Expr) (least : Float) (h : Resembles early stop us vs) :
    ReadsAlike early stop (run stop m least us) (runIf early stop m least vs) := by
  induction hn : us.length using Nat.strongRecOn generalizing m least us vs with
  | ind n ih =>
    have ih' : ∀ (m : Option Expr) (least : Float) (us vs : List Token), us.length < n →
        Resembles early stop us vs → ReadsAlike early stop (run stop m least us)
          (runIf early stop m least vs) :=
      fun m least us vs hlen h => ih _ hlen m least h rfl
    obtain rfl | ⟨rfl, rfl, rfl⟩ := h
    · cases m with
      | none => exact readsAlike_operand ih' least vs (Nat.le_of_eq hn)
      | some e => exact readsAlike_behind ih' least e vs (Nat.le_of_eq hn)
    · -- the end marker is read as nothing is
      cases m with
      | none =>
        rw [run, climb, runIf, climbIf]
        exact .refl _
      | some e =>
        rw [run, climbOn, runIf, climbOnIf]
        exact .refl _

end Expr

namespace TokenStream

open Formula.Expr

def readExprIf (early : Bool) (s : TokenStream) (least : Float) : Except Error Expr × TokenStream :=
  let (result, rest) := (climbIf early s.stop least s.tokens).val
  (result, { s with tokens := rest })

variable (read : TokenStream → Float → Except Error Expr × TokenStream)

def readWholeBy (s : TokenStream) : Except Error Expr :=
  match read s 0.0 with
  | (.error e, _) => .error e
  | (.ok e, rest) => if rest.next.1.kind = .finish then .ok e else .error rest.next.1.unexpected

/-- Reads one expression after the other with these least powers, whether or not they fail, and at
last an expression with nothing behind it. -/
def outcomes : TokenStream → List Float → List (Except Error Expr)
  | s, [] => [readWholeBy read s]
  | s, p :: ps => (read s p).1 :: outcomes (read s p).2 ps

variable {early : Bool} {s s' : TokenStream}

def Alike (early : Bool) (s s' : TokenStream) : Prop :=
  s'.stop = s.stop ∧ Resembles early s.stop s.tokens s'.tokens

theorem Alike.next (h : Alike early s s') : s'.next.1 = s.next.1 := by
  obtain ⟨ts, stop⟩ := s
  obtain ⟨ts', stop'⟩ := s'
  obtain ⟨hstop, htokens⟩ := h
  dsimp only at hstop htokens
  subst hstop
  obtain rfl | ⟨-, rfl, rfl⟩ := htokens <;> rfl

theorem Alike.readExprIf (h : Alike early s s') (least : Float) :
    (s'.readExprIf early least).1 = (s.readExpr least).1 ∧
      Alike early (s.readExpr least).2 (s'.readExprIf early least).2 := by
  obtain ⟨ts, stop⟩ := s
  obtain ⟨ts', stop'⟩ := s'
  obtain ⟨hstop, htokens⟩ := h
  dsimp only at hstop htokens
  subst hstop
  obtain ⟨hresult, hrest⟩ := readsAlike_runIf none least htokens
  exact ⟨hresult, rfl, hrest⟩

theorem Alike.readWholeBy (h : Alike early s s') :
    readWholeBy (TokenStream.readExprIf early) s' = readWholeBy readExpr s := by
  obtain ⟨hresult, hrest⟩ := h.readExprIf 0.0
  rw [TokenStream.readWholeBy, TokenStream.readWholeBy]
  cases hread : s.readExpr 0.0 with
  | mk r rest =>
    cases hread' : s'.readExprIf early 0.0 with
    | mk r' rest' =>
      rw [hread, hread'] at hresult hrest
      dsimp only at hresult hrest
      subst hresult
      cases r' with
      | error err => rfl
      | ok e => simp only [hrest.next]

theorem Alike.outcomes (h : Alike early s s') (ps : List Float) :
    outcomes (TokenStream.readExprIf early) s' ps = outcomes readExpr s ps := by
  induction ps generalizing s s' with
  | nil => exact congrArg (fun r => [r]) h.readWholeBy
  | cons p ps ih =>
    obtain ⟨hresult, hrest⟩ := h.readExprIf p
    rw [TokenStream.outcomes, TokenStream.outcomes, hresult, ih hrest]

theorem Alike.eq_of_early (h : Alike true s s') : s' = s := by
  obtain ⟨ts, stop⟩ := s
  obtain ⟨ts', stop'⟩ := s'
  obtain ⟨hstop, htokens⟩ := h
  dsimp only at hstop htokens
  rw [hstop, htokens.eq_of_early]

theorem readExprIf_true : TokenStream.readExprIf true = readExpr := by
  funext s least
  have halike : Alike true s s := ⟨rfl, .refl s.tokens⟩
  obtain ⟨hresult, hrest⟩ := halike.readExprIf least
  exact Prod.ext hresult hrest.eq_of_early

/-- The rule that a parenthesis which closes at the end marker ends the reading changes no result.
From any stream, and with any least powers one after the other, also after errors, the reader
without that rule gives the same trees and the same errors as the reader that has it, and so does
the reading of the whole rest at the end. -/
theorem outcomes_without_early_end :
    TokenStream.readExprIf true = readExpr ∧ TokenStream.readWholeBy readExpr = readWhole ∧
      ∀ (s : TokenStream) (ps : List Float),
        TokenStream.outcomes (TokenStream.readExprIf false) s ps =
          TokenStream.outcomes readExpr s ps := by
  refine ⟨readExprIf_true, rfl, ?_⟩
  intro s ps
  exact Alike.outcomes ⟨rfl, .refl s.tokens⟩ ps

end TokenStream

end Formula
