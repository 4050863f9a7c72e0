import Formula.Proofs.Climbing.Rest

namespace Formula

namespace Expr

/-- The tokens of a tree from left to right: an operator stands before its operand, behind it, or
between two, and every part of the tree may be put in parentheses, more than once. -/
inductive Traverses : Expr → List Token.Kind → Prop
  | leaf (a : Atom) : Traverses (atom a) [.ofAtom a]
  | before {op : Operator} {e : Expr} {ks : List Token.Kind} (hop : op.isBefore = true)
      (h : Traverses e ks) : Traverses (unary op e) (.operator op :: ks)
  | after {e : Expr} {ks : List Token.Kind} (h : Traverses e ks) :
      Traverses (unary .factorial e) (ks ++ [.operator .factorial])
  | between {op : Operator} {l r : Expr} {ks ks' : List Token.Kind} (hl : Traverses l ks)
      (hr : Traverses r ks') : Traverses (binary op l r) (ks ++ .operator op :: ks')
  | group {e : Expr} {ks : List Token.Kind} (h : Traverses e ks) :
      Traverses e (.operator .openParen :: (ks ++ [.operator .closeParen]))

theorem Traverses.finish_notMem {e : Expr} {ks : List Token.Kind} (h : Traverses e ks) :
    .finish ∉ ks := by
  induction h with
  | leaf a => cases a <;> simp [Token.Kind.ofAtom]
  | before hop h ih => simpa using ih
  | after h ih => simpa using ih
  | between hl hr ihl ihr => simpa using ⟨ihl, ihr⟩
  | group h ih => simpa using ih

theorem Traverses.ne_nil {e : Expr} {ks : List Token.Kind} (h : Traverses e ks) : ks ≠ [] := by
  cases h <;> simp

/-- The tokens `cs` are taken off the front of `ts`, and `us` are left. When none are left, there
may be an end marker in their place. -/
def Consumes (stop : Nat) (ts cs us : List Token) : Prop :=
  ts = cs ++ us ∨ ts = cs ∧ us = [Token.finish stop]

variable {stop : Nat} {ts us vs cs ds : List Token}

theorem Consumes.cons (h : Consumes stop ts cs us) (t : Token) :
    Consumes stop (t :: ts) (t :: cs) us := by
  obtain rfl | ⟨rfl, rfl⟩ := h
  · exact Or.inl rfl
  · exact Or.inr ⟨rfl, rfl⟩

theorem Consumes.exists_trans (h : Consumes stop ts cs us) (h' : Consumes stop us ds vs) :
    ∃ es, Consumes stop ts (cs ++ es) vs := by
  obtain rfl | ⟨rfl, rfl⟩ := h
  · obtain rfl | ⟨rfl, rfl⟩ := h'
    · exact ⟨ds, Or.inl (List.append_assoc cs ds vs).symm⟩
    · exact ⟨us, Or.inr ⟨rfl, rfl⟩⟩
  · refine ⟨[], ?_⟩
    rw [List.append_nil]
    obtain h' | ⟨-, rfl⟩ := h'
    · obtain ⟨-, rfl⟩ | ⟨ds, -, h'⟩ := List.cons_eq_append_iff.1 h'
      · exact Or.inr ⟨rfl, rfl⟩
      · obtain ⟨-, rfl⟩ := List.append_eq_nil_iff.1 h'.symm
        exact Or.inl (List.append_nil ts).symm
    · exact Or.inr ⟨rfl, rfl⟩

/-- No part of a tree is an end marker, so that what is taken adds up. -/
theorem Consumes.trans (h : Consumes stop ts cs us) (h' : Consumes stop us ds vs)
    (hds : .finish ∉ ds.map Token.kind) : Consumes stop ts (cs ++ ds) vs := by
  obtain rfl | ⟨rfl, rfl⟩ := h
  · obtain rfl | ⟨rfl, rfl⟩ := h'
    · exact Or.inl (List.append_assoc cs ds vs).symm
    · exact Or.inr ⟨rfl, rfl⟩
  · obtain h' | ⟨rfl, -⟩ := h'
    · obtain ⟨rfl, rfl⟩ | ⟨es, rfl, -⟩ := List.cons_eq_append_iff.1 h'
      · exact Or.inr ⟨List.append_nil ts |>.symm, rfl⟩
      · exact absurd List.mem_cons_self hds
    · exact absurd List.mem_cons_self hds

theorem consumes_pull (ts : List Token) :
    Consumes stop ts [] ((pull stop ts).1 :: (pull stop ts).2) := by
  cases ts with
  | nil => exact Or.inr ⟨rfl, rfl⟩
  | cons t ts => exact Or.inl rfl

/-- A run takes tokens off the front, and where it looks for an operand, the next one is among
them. -/
def Advances (stop : Nat) (m : Option Expr) (ts us : List Token) : Prop :=
  ∃ cs, Consumes stop ts cs us ∧ (m = none → cs.head? = ts.head?)

theorem advances_pop (m : Option Expr) (t : Token) (ts : List Token) :
    Advances stop m (t :: ts) ts :=
  ⟨[t], Or.inl rfl, fun _ => rfl⟩

theorem Advances.cons {m m' : Option Expr} (h : Advances stop m ts us) (t : Token) :
    Advances stop m' (t :: ts) us := by
  obtain ⟨cs, hcs, -⟩ := h
  exact ⟨t :: cs, hcs.cons t, fun _ => rfl⟩

theorem Advances.cons_trans {m m' m'' : Option Expr} (h : Advances stop m ts us)
    (h' : Advances stop m' us vs) (t : Token) : Advances stop m'' (t :: ts) vs := by
  obtain ⟨cs, hcs, -⟩ := h
  obtain ⟨ds, hds, -⟩ := h'
  obtain ⟨es, hes⟩ := hcs.exists_trans hds
  exact ⟨t :: (cs ++ es), hes.cons t, fun _ => rfl⟩

theorem advances_pull (ts : List Token) : Advances stop none ts (pull stop ts).2 := by
  cases ts with
  | nil => exact ⟨[], Or.inl rfl, fun _ => rfl⟩
  | cons t ts => exact advances_pop none t ts

theorem advances_of_climbs {m : Option Expr} {least : Float} {r : Except Error Expr}
    (h : Climbs stop m least ts r us) : Advances stop m ts us := by
  induction h with
  | leaf ht h ih => exact ih.cons _
  | groupFails ht h ih => exact ih.cons _
  | groupOpen ht h hclose ih => exact ih.cons_trans (advances_pull _) _
  | groupLast ht h hclose hend ih => exact ih.cons_trans (advances_pop none _ _) _
  | @group least t close ts us vs e r ht h hclose hend hon ih ihOn =>
    have hbehind : Advances stop none (close :: us) vs := ihOn.cons close
    exact ih.cons_trans hbehind t
  | beforeFails ht hop h ih => exact ih.cons _
  | before ht hop h hon ih ihOn => exact ih.cons_trans ihOn _
  | noOperand ht => exact advances_pull _
  | ends ht => exact ⟨[], consumes_pull _, fun h => nomatch h⟩
  | after ht hon ih => exact ih.cons _
  | cutOff ht hop hafter hp => exact ⟨[], Or.inl rfl, fun h => nomatch h⟩
  | betweenFails ht hop hafter hp h ih => exact ih.cons _
  | misuse ht hop hafter hp htakes h ih => exact ih.cons _
  | between ht hop hp htakes h hon ih ihOn => exact ih.cons_trans ihOn _
  | noOperator hend ht => exact advances_pop _ _ _

/-- What a run takes for a tree. Behind a tree it goes on from the tokens of that tree. -/
def Accounts (stop : Nat) (e : Expr) (ts us : List Token) : Option Expr → Prop
  | none => ∃ cs, Consumes stop ts cs us ∧ Traverses e (cs.map Token.kind)
  | some e₀ => ∀ pre, Traverses e₀ pre →
      ∃ cs, Consumes stop ts cs us ∧ Traverses e (pre ++ cs.map Token.kind)

theorem accounts_operand {e e₀ : Expr} (hcs : Consumes stop ts cs us)
    (he₀ : Traverses e₀ (cs.map Token.kind)) (h : Accounts stop e us vs (some e₀)) :
    Accounts stop e ts vs none := by
  obtain ⟨ds, hds, he⟩ := h _ he₀
  have hfinish : .finish ∉ ds.map Token.kind :=
    fun hmem => he.finish_notMem (List.mem_append_right _ hmem)
  refine ⟨cs ++ ds, hcs.trans hds hfinish, ?_⟩
  rwa [List.map_append]

theorem exists_consumes_group {e : Expr} {t close : Token} (ht : t.kind = .operator .openParen)
    (hclose : close.kind = .operator .closeParen) (h : Accounts stop e ts (close :: us) none) :
    ∃ cs, Consumes stop (t :: ts) cs us ∧ Traverses e (cs.map Token.kind) := by
  obtain ⟨cs, hcs, he⟩ := h
  have hlast : Consumes stop (close :: us) [close] us := Or.inl rfl
  refine ⟨t :: (cs ++ [close]), (hcs.trans hlast (by simp [hclose])).cons t, ?_⟩
  simpa [ht, hclose] using he.group

theorem accounts_of_climbs {m : Option Expr} {least : Float} {e : Expr}
    (h : Climbs stop m least ts (.ok e) us) : Accounts stop e ts us m := by
  generalize hr : (Except.ok e : Except Error Expr) = r at h
  -- a run behind a tree adds to its tokens, so that case is shown for all of its traversals
  induction h generalizing e with
  | @leaf least t ts us a r ht h ih =>
    have hleaf : Traverses (atom a) ([t].map Token.kind) := by
      have hkind : t.kind = .ofAtom a := by
        cases hk : t.kind <;> rw [hk] at ht <;> cases ht <;> rfl
      rw [List.map_singleton, hkind]
      exact .leaf a
    exact accounts_operand (Or.inl rfl) hleaf (ih hr)
  | groupLast ht h hclose hend ih =>
    cases hr
    exact exists_consumes_group ht hclose (ih rfl)
  | group ht h hclose hend hon ih ihOn =>
    obtain ⟨cs, hcs, he⟩ := exists_consumes_group ht hclose (ih rfl)
    exact accounts_operand hcs he (ihOn hr)
  | @before least t ts us vs op operand r ht hop h hon ih ihOn =>
    obtain ⟨cs, hcs, he⟩ := ih rfl
    refine accounts_operand (hcs.cons t) ?_ (ihOn hr)
    rw [List.map_cons, ht]
    exact he.before hop
  | ends ht =>
    intro pre he
    cases hr
    exact ⟨[], consumes_pull _, by simpa using he⟩
  | cutOff ht hop hafter hp =>
    intro pre he
    cases hr
    exact ⟨[], Or.inl rfl, by simpa using he⟩
  | @after least left t ts us r ht hon ih =>
    intro pre he
    obtain ⟨cs, hcs, he'⟩ := ih hr _ he.after
    exact ⟨t :: cs, hcs.cons t, by simpa [ht] using he'⟩
  | @between least left right t ts us vs op p r ht hop hp htakes h hon ih ihOn =>
    intro pre he
    obtain ⟨cs, hcs, hright⟩ := ih rfl
    obtain ⟨ds, hds, he'⟩ := ihOn hr _ (he.between hright)
    have hfinish : .finish ∉ ds.map Token.kind :=
      fun hmem => he'.finish_notMem (List.mem_append_right _ hmem)
    refine ⟨t :: (cs ++ ds), (hcs.trans hds hfinish).cons t, ?_⟩
    simpa [ht] using he'
  | _ => cases hr

end Expr

namespace TokenStream

open Formula.Expr

theorem peek_eq_kind_pull (s : TokenStream) : s.peek = (pull s.stop s.tokens).1.kind := by
  rw [peek, pull.eq_def]
  cases s.tokens <;> rfl

/-- Reading an expression, from any stream and with any least power, comes to an end by the rules.
It takes tokens off the front and leaves the rest as it was, but for an end marker when none are
left. Unless the next token is an end marker, one that is none is taken, whether or not the reading
fails. If it gives a tree, then the tokens that are taken are those of the tree, with parentheses
around parts of it, and behind them stands the end marker, a closing parenthesis, or an operator
with a left power below the least one. -/
theorem readExpr_accounts (s : TokenStream) (least : Float) :
    ∃ (r : Except Error Expr) (cs : List Token) (rest : TokenStream),
      Climbs s.stop none least s.tokens r rest.tokens ∧ s.readExpr least = (r, rest) ∧
      rest.stop = s.stop ∧
      (s.tokens = cs ++ rest.tokens ∨ s.tokens = cs ∧ rest.tokens = [Token.finish s.stop]) ∧
      (s.peek ≠ .finish → ∃ t ∈ cs, t.kind ≠ .finish) ∧
      ∀ e, r = .ok e → Traverses e (cs.map Token.kind) ∧
        (rest.peek = .finish ∨ rest.peek = .operator .closeParen ∨
          ∃ op p, rest.peek = .operator op ∧ op.power? = some p ∧ p.left < least) := by
  obtain ⟨r, us, h⟩ : ∃ r us, Climbs s.stop none least s.tokens r us := exists_climbs _ _ _
  have hread := readExpr_of_climbs h
  cases r with
  | error err =>
    obtain ⟨cs, hcs, hhead⟩ := advances_of_climbs h
    refine ⟨_, cs, _, h, hread, rfl, hcs, ?_, fun e he => nomatch he⟩
    intro hpeek
    cases hts : s.tokens with
    | nil =>
      rw [peek, hts] at hpeek
      exact absurd rfl hpeek
    | cons t ts =>
      rw [hts] at hhead
      rw [peek, hts] at hpeek
      exact ⟨t, List.mem_of_head? (hhead rfl), hpeek⟩
  | ok e =>
    obtain ⟨cs, hcs, he⟩ := accounts_of_climbs h
    refine ⟨_, cs, _, h, hread, rfl, hcs, ?_, ?_⟩
    · intro _
      obtain ⟨t, ts, rfl⟩ := List.exists_cons_of_ne_nil (mt (congrArg (List.map _)) he.ne_nil)
      refine ⟨t, List.mem_cons_self, fun ht => he.finish_notMem ?_⟩
      rw [List.map_cons, ht]
      exact List.mem_cons_self
    · intro e' he'
      cases he'
      refine ⟨he, ?_⟩
      rw [peek_eq_kind_pull]
      obtain hend | ⟨op, p, hop, hp, -, hleft⟩ := ends_of_climbs h
      · obtain hfinish | hclose := Token.Kind.endsExpr_eq_true_iff.1 hend
        · exact Or.inl hfinish
        · exact Or.inr (Or.inl hclose)
      · exact Or.inr (Or.inr ⟨op, p, hop, hp, hleft⟩)

theorem readExpr_accounts_group :
    let s : TokenStream := ⟨[⟨.operator .openParen, ⟨0, 1⟩⟩, ⟨.number ⟨"2", 2.0⟩, ⟨1, 2⟩⟩,
      ⟨.operator .closeParen, ⟨2, 3⟩⟩, ⟨.operator .factorial, ⟨3, 4⟩⟩,
      ⟨.operator .times, ⟨4, 5⟩⟩, ⟨.symbol (.ofName "x"), ⟨5, 6⟩⟩], 6⟩
    let e := unary .factorial (atom (.number ⟨"2", 2.0⟩))
    s.peek ≠ .finish ∧ ∃ (cs : List Token) (rest : TokenStream), s.readExpr 2.5 = (.ok e, rest) ∧
      (∃ t ∈ cs, t.kind ≠ .finish) ∧ Traverses e (cs.map Token.kind) ∧
      rest.peek = .operator .times := by
  intro s e
  have hpeek : s.peek ≠ .finish := by decide
  have hclimbs : Climbs s.stop none 2.5 s.tokens (.ok e) (s.tokens.drop 4) :=
    .group rfl (.leaf rfl (.ends rfl)) rfl rfl
      (.after rfl (.cutOff rfl rfl (by decide) (by decide)))
  have hread := readExpr_of_climbs hclimbs
  obtain ⟨r, cs, rest, -, hr, -, -, htaken, hok⟩ := readExpr_accounts s 2.5
  obtain ⟨rfl, rfl⟩ := Prod.mk.inj (hread.symm.trans hr)
  obtain ⟨htraverses, -⟩ := hok e rfl
  exact ⟨hpeek, cs, _, hread, htaken hpeek, htraverses, rfl⟩

end TokenStream

end Formula
