import Formula.Proofs.Climbing.Source

namespace Formula.Pushdown

open Formula.Expr

inductive Expected where
  | operand | operator
deriving DecidableEq

/-- All that a flat scan of the tokens keeps: what it expects next, and which parentheses are open,
the innermost one first. -/
structure State where
  expected : Expected
  opened : List Token
deriving DecidableEq

def start : State := ⟨.operand, []⟩

def step (s : State) (t : Token) : Option State :=
  match s.expected, t.kind with
  | .operand, .number _ => some ⟨.operator, s.opened⟩
  | .operand, .symbol _ => some ⟨.operator, s.opened⟩
  | .operand, .operator op =>
    if op = .openParen then some ⟨.operand, t :: s.opened⟩
    else if op ∈ [.minus, .sin, .cos, .tan, .sqrt] then some ⟨.operand, s.opened⟩
    else none
  | .operator, .operator op =>
    if op = .factorial then some ⟨.operator, s.opened⟩
    else if op ∈ [.plus, .minus, .times, .divide, .power, .sqrt] then some ⟨.operand, s.opened⟩
    else if op = .closeParen then
      match s.opened with
      | [] => none
      | _ :: opened => some ⟨.operator, opened⟩
    else none
  | _, _ => none

inductive Outcome where
  | accepted
  | stuck (s : State) (t : Token)
deriving DecidableEq

/-- Where a token is not taken in, the scan is at an end: it is stuck, unless this is the end marker
behind an operand, and no parenthesis is open. -/
def halt (s : State) (t : Token) : Outcome :=
  if t.kind = .finish ∧ s = ⟨.operator, []⟩ then .accepted else .stuck s t

def scan (stop : Nat) : State → List Token → Outcome
  | s, [] => halt s (Token.finish stop)
  | s, t :: ts =>
    match step s t with
    | some s => scan stop s ts
    | none => halt s t

def blame (stop : Nat) (s : State) (t : Token) : Error :=
  match s.expected, s.opened, t.kind with
  | .operator, paren :: _, .finish => ⟨.unmatchedParenthesis, ⟨paren.span.start, stop⟩⟩
  | _, _, _ => ⟨.unexpectedToken t.text, t.span⟩

/-- A function stands where an operator is expected. -/
def Misplaced (s : State) (t : Token) : Prop :=
  s.expected = .operator ∧ t.kind ∈ [.operator .sin, .operator .cos, .operator .tan]

variable {stop : Nat} {s s' : State} {t : Token} {ts us : List Token}

theorem scan_of_step (h : step s t = some s') (ts : List Token) :
    scan stop s (t :: ts) = scan stop s' ts := by
  rw [scan, h]

theorem scan_of_stuck (h : step s t = none) (ht : t.kind ≠ .finish) (ts : List Token) :
    scan stop s (t :: ts) = .stuck s t := by
  rw [scan, h]
  exact if_neg fun hfinish => ht hfinish.1

theorem step_finish (h : t.kind = .finish) (s : State) : step s t = none := by
  rw [step, h]
  cases s.expected <;> rfl

theorem scan_pull (s : State) (ts : List Token) :
    scan stop s ((pull stop ts).1 :: (pull stop ts).2) = scan stop s ts := by
  cases ts with
  | nil =>
    change scan stop s [Token.finish stop] = halt s (Token.finish stop)
    rw [scan, step_finish rfl]
  | cons t ts => rfl

theorem mem_of_scan_eq_stuck (h : scan stop s ts = .stuck s' t) :
    t ∈ ts ∨ t = Token.finish stop := by
  have hhalt : ∀ {s u}, halt s u = .stuck s' t → t = u := by
    intro s u hu
    rw [halt] at hu
    split at hu
    · cases hu
    · cases hu
      rfl
  induction ts generalizing s with
  | nil => exact Or.inr (hhalt h)
  | cons u ts ih =>
    rw [scan] at h
    split at h
    · obtain hmem | hfinish := ih h
      · exact Or.inl (List.mem_cons_of_mem u hmem)
      · exact Or.inr hfinish
    · rw [hhalt h]
      exact Or.inl List.mem_cons_self

theorem step_atom {a : Atom} (h : t.kind.atom? = some a) (opened : List Token) :
    step ⟨.operand, opened⟩ t = some ⟨.operator, opened⟩ := by
  rw [step]
  cases hk : t.kind <;> rw [hk] at h <;> cases h

theorem step_openParen (h : t.kind = .operator .openParen) (opened : List Token) :
    step ⟨.operand, opened⟩ t = some ⟨.operand, t :: opened⟩ := by
  rw [step, h]
  rfl

theorem step_before {op : Operator} (h : t.kind = .operator op) (hop : op.isBefore = true)
    (opened : List Token) : step ⟨.operand, opened⟩ t = some ⟨.operand, opened⟩ := by
  rw [step, h]
  cases op <;> first | rfl | cases hop

theorem step_factorial (h : t.kind = .operator .factorial) (opened : List Token) :
    step ⟨.operator, opened⟩ t = some ⟨.operator, opened⟩ := by
  rw [step, h]
  rfl

theorem step_closeParen (h : t.kind = .operator .closeParen) (paren : Token)
    (opened : List Token) : step ⟨.operator, paren :: opened⟩ t = some ⟨.operator, opened⟩ := by
  rw [step, h]
  rfl

theorem step_between {op : Operator} (h : t.kind = .operator op) (hop : op.takes 2 = true)
    (opened : List Token) : step ⟨.operator, opened⟩ t = some ⟨.operand, opened⟩ := by
  rw [step, h]
  cases op <;> first | rfl | cases hop

theorem step_noOperand (h : t.kind.startsOperand = false) (opened : List Token) :
    step ⟨.operand, opened⟩ t = none := by
  rw [step]
  cases hk : t.kind with
  | number n => rw [hk] at h; cases h
  | symbol n => rw [hk] at h; cases h
  | finish => rfl
  | operator op =>
    rw [hk] at h
    cases op <;> first | rfl | cases h

theorem step_noOperator (h : t.kind.power? = none) (hend : t.kind.endsExpr = false)
    (opened : List Token) : step ⟨.operator, opened⟩ t = none := by
  rw [step]
  cases hk : t.kind with
  | number n => rfl
  | symbol n => rfl
  | finish => rfl
  | operator op =>
    rw [hk] at h hend
    cases op <;> first | rfl | exact absurd hend (by decide) | exact absurd h (by decide)

theorem misplaced_of_power? {op : Operator} {p : BindingPower} (h : t.kind = .operator op)
    (hp : op.power? = some p) (hafter : op ≠ .factorial) (htakes : op.takes 2 = false)
    (opened : List Token) :
    step ⟨.operator, opened⟩ t = none ∧ Misplaced ⟨.operator, opened⟩ t := by
  rw [step, Misplaced, h]
  cases op <;> first
    | exact ⟨rfl, rfl, by decide⟩
    | exact absurd htakes (by decide)
    | exact absurd rfl hafter
    | cases hp

theorem scan_group {close : Token} {opened : List Token} (ht : t.kind = .operator .openParen)
    (hclose : close.kind = .operator .closeParen)
    (h : scan stop ⟨.operand, t :: opened⟩ ts = scan stop ⟨.operator, t :: opened⟩ (close :: us)) :
    scan stop ⟨.operand, opened⟩ (t :: ts) = scan stop ⟨.operator, opened⟩ us := by
  rw [scan_of_step (step_openParen ht opened), h, scan_of_step (step_closeParen hclose t opened)]

def expects : Option Expr → Expected
  | none => .operand
  | some _ => .operator

/-- What the reader takes for a tree, the scan takes in, with the same parentheses open behind it
as in front of it. -/
theorem scan_of_climbs {m : Option Expr} {least : Float} {e : Expr}
    (h : Climbs stop m least ts (.ok e) us) (opened : List Token) :
    scan stop ⟨expects m, opened⟩ ts = scan stop ⟨.operator, opened⟩ us := by
  generalize hr : (Except.ok e : Except Error Expr) = r at h
  induction h generalizing e opened with
  | leaf ht h ih => exact (scan_of_step (step_atom ht opened) _).trans (ih opened hr)
  | groupLast ht h hclose hend ih => exact scan_group ht hclose (ih _ rfl)
  | group ht h hclose hend hon ih ihOn =>
    exact (scan_group ht hclose (ih _ rfl)).trans (ihOn opened hr)
  | @before least t ts us vs op operand r ht hop h hon ih ihOn =>
    calc scan stop ⟨.operand, opened⟩ (t :: ts)
        = scan stop ⟨.operand, opened⟩ ts := scan_of_step (step_before ht hop opened) ts
      _ = scan stop ⟨.operator, opened⟩ us := ih opened rfl
      _ = scan stop ⟨.operator, opened⟩ vs := ihOn opened hr
  | ends ht => exact (scan_pull ⟨.operator, opened⟩ _).symm
  | after ht hon ih => exact (scan_of_step (step_factorial ht opened) _).trans (ih opened hr)
  | cutOff ht hop hafter hp => rfl
  | @between least left right t ts us vs op p r ht hop hp htakes h hon ih ihOn =>
    calc scan stop ⟨.operator, opened⟩ (t :: ts)
        = scan stop ⟨.operand, opened⟩ ts := scan_of_step (step_between ht htakes opened) ts
      _ = scan stop ⟨.operator, opened⟩ us := ih opened rfl
      _ = scan stop ⟨.operator, opened⟩ vs := ihOn opened hr
  | _ => cases hr

/-- The scan is stuck, at a function or where the error says. -/
def Blames (stop : Nat) (err : Error) (s : State) (ts : List Token) : Prop :=
  ∃ s' t, scan stop s ts = .stuck s' t ∧ (Misplaced s' t ∨ err = blame t.span.stop s' t)

theorem Blames.of_scan_eq {err : Error} (h : Blames stop err s' us)
    (heq : scan stop s ts = scan stop s' us) : Blames stop err s ts := by
  rw [Blames, heq]
  exact h

theorem Blames.of_pull {err : Error} (h : step s (pull stop ts).1 = none)
    (hs : s ≠ ⟨.operator, []⟩) (herr : err = blame (pull stop ts).1.span.stop s (pull stop ts).1) :
    Blames stop err s ts := by
  refine ⟨s, (pull stop ts).1, ?_, Or.inr herr⟩
  rw [← scan_pull, scan, h]
  exact if_neg fun hfinish => hs hfinish.2

theorem blames_misplaced {err : Error} {op : Operator} {p : BindingPower} {opened : List Token}
    (h : t.kind = .operator op) (hp : op.power? = some p) (hafter : op ≠ .factorial)
    (htakes : op.takes 2 = false) : Blames stop err ⟨.operator, opened⟩ (t :: ts) := by
  obtain ⟨hstep, hmisplaced⟩ := misplaced_of_power? h hp hafter htakes opened
  exact ⟨_, t, scan_of_stuck hstep (by simp [h]) ts, Or.inl hmisplaced⟩

theorem blames_of_climbs {m : Option Expr} {least : Float} {err : Error}
    (h : Climbs stop m least ts (.error err) us) (opened : List Token) :
    Blames stop err ⟨expects m, opened⟩ ts := by
  generalize hr : (Except.error err : Except Error Expr) = r at h
  induction h generalizing err opened with
  | leaf ht h ih => exact (ih opened hr).of_scan_eq (scan_of_step (step_atom ht opened) _)
  | @groupFails least t ts us err ht h ih =>
    exact (ih (t :: opened) hr).of_scan_eq (scan_of_step (step_openParen ht opened) ts)
  | @groupOpen least t ts us inner ht h hclose ih =>
    -- an expression ends at the end marker or where a parenthesis closes, and here none does
    have hfinish : (pull stop us).1.kind = .finish := by
      have hend := endsExpr_of_ends (ends_of_climbs h)
      exact (Token.Kind.endsExpr_eq_true_iff.1 hend).resolve_right hclose
    have hblames : Blames stop err ⟨.operator, t :: opened⟩ us := by
      refine Blames.of_pull (step_finish hfinish _) (by simp) ?_
      cases hr
      rw [blame, hfinish]
      rfl
    exact hblames.of_scan_eq
      ((scan_of_step (step_openParen ht opened) ts).trans (scan_of_climbs h (t :: opened)))
  | group ht h hclose hend hon ih ihOn =>
    exact (ihOn opened hr).of_scan_eq (scan_group ht hclose (scan_of_climbs h _))
  | @beforeFails least t ts us op err ht hop h ih =>
    exact (ih opened hr).of_scan_eq (scan_of_step (step_before ht hop opened) ts)
  | @before least t ts us vs op operand r ht hop h hon ih ihOn =>
    exact (ihOn opened hr).of_scan_eq
      ((scan_of_step (step_before ht hop opened) ts).trans (scan_of_climbs h opened))
  | noOperand ht =>
    refine Blames.of_pull (step_noOperand ht opened) (by simp [expects]) ?_
    cases hr
    rfl
  | after ht hon ih => exact (ih opened hr).of_scan_eq (scan_of_step (step_factorial ht opened) _)
  | @betweenFails least left t ts us op p err ht hop hafter hp h ih =>
    cases htakes : op.takes 2 with
    | false => exact blames_misplaced ht hop hafter htakes
    | true => exact (ih opened hr).of_scan_eq (scan_of_step (step_between ht htakes opened) ts)
  | misuse ht hop hafter hp htakes h ih => exact blames_misplaced ht hop hafter htakes
  | @between least left right t ts us vs op p r ht hop hp htakes h hon ih ihOn =>
    exact (ihOn opened hr).of_scan_eq
      ((scan_of_step (step_between ht htakes opened) ts).trans (scan_of_climbs h opened))
  | @noOperator least left t ts hend ht =>
    have hfinish : t.kind ≠ .finish := by
      intro hk
      rw [hk] at hend
      cases hend
    refine ⟨_, t, scan_of_stuck (step_noOperator ht hend opened) hfinish ts, Or.inr ?_⟩
    cases hr
    rw [blame]
    split
    · exact absurd (by assumption) hfinish
    · rfl
  | _ => cases hr

theorem blame_eq_of_finish (h : t.kind = .finish → t.span.stop = stop) (s : State) :
    blame t.span.stop s t = blame stop s t := by
  rw [blame, blame]
  split
  · rw [h (by assumption)]
  · rfl

theorem accepted_or_blames {source : String} {ts : List Token}
    (hts : TokenStream.ofSource source = .ok ⟨ts, source.length⟩) :
    ((∃ e, parse source = .ok e) ∧ scan source.length start ts = .accepted) ∨
      ∃ err, parse source = .error err ∧ Blames source.length err start ts := by
  obtain ⟨r, us, h⟩ := exists_climbs none 0.0 ts
  cases r with
  | error err => exact Or.inr ⟨err, parse_of_climbs_error hts h, blames_of_climbs h []⟩
  | ok e =>
    have hscan : scan source.length start ts = scan source.length ⟨.operator, []⟩ us :=
      scan_of_climbs h []
    have hend := endsExpr_of_ends (ends_of_climbs h)
    by_cases hus : (pull source.length us).1.kind = .finish
    · refine Or.inl ⟨⟨e, parse_of_climbs_finish hts h hus⟩, ?_⟩
      rw [hscan, ← scan_pull, scan, step_finish hus]
      exact if_pos ⟨hus, rfl⟩
    · refine Or.inr ⟨_, parse_of_climbs_rest hts h hus, ?_⟩
      refine Blames.of_scan_eq ?_ (hscan.trans (scan_pull _ us).symm)
      -- a parenthesis closes here that was never opened
      have hclose := (Token.Kind.endsExpr_eq_true_iff.1 hend).resolve_left hus
      refine ⟨_, _, scan_of_stuck ?_ hus _, Or.inr rfl⟩
      rw [step, hclose]
      rfl

/-- A source is read as a tree exactly when the scan of its tokens comes to the end marker without
being stuck. Where it is stuck, unless that is at a function in the place of an operator, the error
is a parenthesis that is still open at the end marker, or else the token itself. -/
theorem parse_follows_scan (source : String) : ∃ ts : List Token,
    TokenStream.ofSource source =
      .ok ⟨ts ++ [Token.finish source.length], source.length⟩ ∧
    ((∃ e, parse source = .ok e) ↔
      scan source.length start (ts ++ [Token.finish source.length]) = .accepted) ∧
    ∀ s t, scan source.length start (ts ++ [Token.finish source.length]) = .stuck s t →
      ¬ Misplaced s t → parse source = .error (blame source.length s t) := by
  obtain ⟨ts, hts, -⟩ := Token.exists_ofSource source
  have hs := TokenStream.ofSource_eq hts
  refine ⟨ts, hs, ?_⟩
  obtain ⟨hparse, hscan⟩ | ⟨err, hparse, s, t, hscan, herr⟩ := accepted_or_blames hs
  · refine ⟨⟨fun _ => hscan, fun _ => hparse⟩, ?_⟩
    intro s t hstuck
    rw [hscan] at hstuck
    cases hstuck
  · rw [hparse, hscan]
    refine ⟨⟨fun h => ?_, fun h => nomatch h⟩, ?_⟩
    · obtain ⟨e, he⟩ := h
      cases he
    · intro s' t' hstuck hplaced
      cases hstuck
      have hfinish : t.kind = .finish → t.span.stop = source.length := by
        intro hk
        obtain hmem | rfl := mem_of_scan_eq_stuck hscan
        · obtain hmem | hmem := List.mem_append.1 hmem
          · exact absurd hk (Token.kind_ne_finish_of_mem hts hmem)
          · rw [List.mem_singleton.1 hmem]
            rfl
        · rfl
      rw [herr.resolve_left hplaced, blame_eq_of_finish hfinish]

theorem parse_open_parenthesis : ∃ ts s t,
    TokenStream.ofSource "1+(2*3" = .ok ⟨ts ++ [Token.finish 6], 6⟩ ∧
    scan 6 start (ts ++ [Token.finish 6]) = .stuck s t ∧ ¬ Misplaced s t ∧
    parse "1+(2*3" = .error ⟨.unmatchedParenthesis, ⟨2, 6⟩⟩ := by
  obtain ⟨ts, hts, -, hblame⟩ := parse_follows_scan "1+(2*3"
  have htokens : TokenStream.ofSource "1+(2*3" = .ok ⟨[⟨.number ⟨"1", 1.0⟩, ⟨0, 1⟩⟩,
      ⟨.operator .plus, ⟨1, 2⟩⟩, ⟨.operator .openParen, ⟨2, 3⟩⟩, ⟨.number ⟨"2", 2.0⟩, ⟨3, 4⟩⟩,
      ⟨.operator .times, ⟨4, 5⟩⟩, ⟨.number ⟨"3", 3.0⟩, ⟨5, 6⟩⟩, Token.finish 6], 6⟩ := by
    decide +kernel
  have hsource := htokens.symm.trans hts
  have hlist := congrArg TokenStream.tokens (Except.ok.inj hsource)
  have hscan : scan 6 start (ts ++ [Token.finish 6]) =
      .stuck ⟨.operator, [⟨.operator .openParen, ⟨2, 3⟩⟩]⟩ (Token.finish 6) := by
    exact (congrArg (scan 6 start) hlist).symm
  have hplaced : ¬ Misplaced ⟨.operator, [⟨.operator .openParen, ⟨2, 3⟩⟩]⟩ (Token.finish 6) := by
    rintro ⟨-, hmem⟩
    exact absurd hmem (by decide)
  exact ⟨ts, _, _, hts, hscan, hplaced, hblame _ _ hscan hplaced⟩

end Formula.Pushdown
