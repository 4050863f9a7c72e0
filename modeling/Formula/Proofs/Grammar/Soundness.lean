import Formula.Proofs.Grammar

namespace Formula

namespace Expr

variable {stop : Nat}

def Follows (stop : Nat) (m : Level) (ts : List Token) : Prop :=
  ∀ op, (pull stop ts).1.kind = .operator op →
    (op = .factorial → m = .primary) ∧ ∀ l, op.level? = some l → l.left.rank ≤ m.rank

theorem follows_primary (ts : List Token) : Follows stop .primary ts := by
  intro op _
  refine ⟨fun _ => rfl, ?_⟩
  intro l _
  cases l <;> decide

theorem follows_of_ends {l m : Level} {least : Float} {ts : List Token}
    (h : Ends stop least ts) (hl : l.Threshold least)
    (hm : ∀ k : Level, k.rank < l.rank → k.left.rank ≤ m.rank) : Follows stop m ts := by
  intro op hop
  obtain hend | ⟨op', p, hop', hp, hafter, hleft⟩ := h
  · rw [hop] at hend
    obtain rfl : op = .closeParen := of_decide_eq_true hend
    exact ⟨fun h => absurd h (by decide), fun _ h => nomatch h⟩
  · obtain rfl : op = op' := by
      rw [hop] at hop'
      exact Token.Kind.operator.inj hop'
    refine ⟨fun h => absurd h hafter, ?_⟩
    intro k hk
    exact hm k ((Operator.left_lt_iff hk hp hl).1 hleft)

/-- What a run reads at a level. Behind a tree it goes on from the tokens of that tree, which has
to be of the level, and such that the next operator takes it. -/
def Reads (stop : Nat) (l : Level) (e : Expr) (ts us : List Token) : Option Expr → Prop
  | none => ∃ cs, body ts = cs ++ body us ∧ Derives l (cs.map Token.kind) e
  | some e₀ => ∀ m pre, Derives m pre e₀ → Follows stop m ts → l.rank ≤ m.rank →
      ∃ cs, body ts = cs ++ body us ∧ Derives l (pre ++ cs.map Token.kind) e

theorem reads_operand {l m : Level} {e e₀ : Expr} {ts us vs cs : List Token}
    (hbody : body ts = cs ++ body us) (he₀ : Derives m (cs.map Token.kind) e₀)
    (hfollows : Follows stop m us) (hlm : l.rank ≤ m.rank)
    (h : Reads stop l e us vs (some e₀)) : Reads stop l e ts vs none := by
  obtain ⟨ds, hbody', he⟩ := h m _ he₀ hfollows hlm
  refine ⟨cs ++ ds, ?_, ?_⟩
  · rw [hbody, hbody', List.append_assoc]
  · rwa [List.map_append]

theorem reads_leaf {l : Level} {e : Expr} {t : Token} {ts us : List Token} {a : Atom}
    (ht : t.kind.atom? = some a) (hl : l.rank ≤ Level.primary.rank)
    (h : Reads stop l e ts us (some (atom a))) : Reads stop l e (t :: ts) us none := by
  have hderives : Derives .primary [t.kind] (atom a) := by
    cases hk : t.kind <;> rw [hk] at ht <;> cases ht <;> constructor
  have hfinish : t.kind ≠ .finish := by
    intro hk
    rw [hk] at ht
    cases ht
  have hbody : body (t :: ts) = [t] ++ body ts := body_cons hfinish ts
  exact reads_operand hbody hderives (follows_primary ts) hl h

theorem reads_group {e : Expr} {t close : Token} {ts us : List Token}
    (ht : t.kind = .operator .openParen) (hclose : close.kind = .operator .closeParen)
    (h : Reads stop .sum e ts (close :: us) none) : ∃ cs, body (t :: ts) = cs ++ body us ∧
      Derives .primary (cs.map Token.kind) e := by
  obtain ⟨cs, hbody, he⟩ := h
  refine ⟨t :: (cs ++ [close]), ?_, ?_⟩
  · rw [body_cons (by simp [ht]), hbody, body_cons (by simp [hclose])]
    simp
  · have hgroup := he.group
    simpa only [List.map_cons, List.map_append, List.map_nil, ht, hclose] using hgroup

theorem reads_between {l m : Level} {e left right : Expr} {t : Token} {op : Operator}
    {p : BindingPower} {ts us vs : List Token} {pre : List Token.Kind} {least : Float}
    (hl : l.Threshold least) (ht : t.kind = .operator op) (hop : op.power? = some p)
    (hleft : ¬ p.left < least) (hm : op.level? = some m) (he₀ : Derives m.left pre left)
    (hright : Reads stop m.right right ts us none) (hends : Ends stop p.right us)
    (h : Reads stop l e us vs (some (binary op left right))) :
    ∃ cs, body (t :: ts) = cs ++ body vs ∧ Derives l (pre ++ cs.map Token.kind) e := by
  obtain ⟨cs, hbody, hcs⟩ := hright
  have hfollows : Follows stop m us :=
    follows_of_ends hends (Operator.threshold_right hm hop) fun _ => Level.left_rank_le_of_lt_right
  have hlm : l.rank ≤ m.rank := Nat.le_of_not_lt (mt (Operator.left_lt_iff hm hop hl).2 hleft)
  obtain ⟨ds, hbody', he⟩ := h m _ (he₀.between hm hcs) hfollows hlm
  refine ⟨t :: (cs ++ ds), ?_, ?_⟩
  · rw [body_cons (by simp [ht]), hbody, hbody']
    simp
  · simpa [ht] using he

/-- What is read is derived by the grammar, at the level that belongs to the power. -/
theorem reads_of_climbs {m : Option Expr} {l : Level} {least : Float} {ts us : List Token}
    {e : Expr} (hl : l.Threshold least) (h : Climbs stop m least ts (.ok e) us) :
    Reads stop l e ts us m := by
  generalize hr : (Except.ok e : Except Error Expr) = r at h
  induction h generalizing l e with
  | leaf ht h ih => exact reads_leaf ht (Nat.le_succ_of_le hl.rank_le) (ih hl hr)
  | groupLast ht h hclose hend ih =>
    obtain ⟨cs, hbody, he⟩ := reads_group ht hclose (ih .sum rfl)
    cases hr
    exact ⟨cs, hbody, he.mono (Nat.le_succ_of_le hl.rank_le)⟩
  | @group least t close ts us vs inner r ht h hclose hend hon ih ihOn =>
    obtain ⟨cs, hbody, he⟩ := reads_group ht hclose (ih .sum rfl)
    exact reads_operand hbody he (follows_primary us) (Nat.le_succ_of_le hl.rank_le) (ihOn hl hr)
  | @before least t ts us vs op operand r ht hop h hon ih ihOn =>
    obtain ⟨cs, hbody, he⟩ := ih .factor rfl
    have hbody' : body (t :: ts) = (t :: cs) ++ body us := by
      rw [body_cons (by simp [ht]), hbody, List.cons_append]
    have he' : Derives .factor ((t :: cs).map Token.kind) (unary op operand) := by
      rw [List.map_cons, ht]
      exact he.before_of_isBefore hop
    have hfollows : Follows stop .factor us :=
      follows_of_ends (ends_of_climbs h) .factor fun k hk =>
        Level.left_rank_le_of_lt_right (l := .factor) hk
    exact reads_operand hbody' he' hfollows hl.rank_le (ihOn hl hr)
  | ends ht =>
    -- from here on the operand stands in front, derived from what was read before
    intro m pre he hfollows hlm
    cases hr
    refine ⟨[], (body_pull stop _).symm, ?_⟩
    simpa using he.mono hlm
  | cutOff ht hop hafter hp =>
    intro m pre he hfollows hlm
    cases hr
    refine ⟨[], rfl, ?_⟩
    simpa using he.mono hlm
  | @after least e t ts us r ht hon ih =>
    intro m pre he hfollows hlm
    obtain rfl : m = .primary := (hfollows .factorial ht).1 rfl
    obtain ⟨cs, hbody, he'⟩ := ih hl hr .primary _ he.after (follows_primary ts) hlm
    refine ⟨t :: cs, ?_, ?_⟩
    · rw [body_cons (by simp [ht]), hbody, List.cons_append]
    · simpa [ht] using he'
  | between ht hop hp htakes h hon ih ihOn =>
    intro m pre he hfollows hlm
    obtain ⟨k, hk⟩ := Operator.exists_level?_of_takes_two htakes
    have hleft := he.mono ((hfollows _ ht).2 k hk)
    exact reads_between hl ht hop hp hk hleft (ih (Operator.threshold_right hk hop) rfl)
      (ends_of_climbs h) (ihOn hl hr)
  | _ => cases hr

end Expr

end Formula
