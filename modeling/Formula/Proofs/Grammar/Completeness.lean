import Formula.Proofs.Climbing.Source
import Formula.Proofs.Grammar.Soundness

namespace Formula

namespace Expr

variable {stop : Nat}

/-- Behind a tree of the level, the token ends the expression or goes on with it as an operand. -/
def Precedes (m : Level) (t : Token) : Prop :=
  t.kind.endsExpr = true ∨ ∃ op, t.kind = .operator op ∧
    (op = .factorial ∧ m = .primary ∨ ∃ l, op.level? = some l ∧ l.left.rank ≤ m.rank)

theorem Precedes.mono {m n : Level} {t : Token} (h : Precedes m t) (hle : m.rank ≤ n.rank) :
    Precedes n t := by
  obtain hend | ⟨op, ht, ⟨hop, rfl⟩ | ⟨l, hl, hleft⟩⟩ := h
  · exact Or.inl hend
  · obtain rfl : n = .primary := by
      cases n <;> first | rfl | exact absurd hle (by decide)
    exact Or.inr ⟨op, ht, Or.inl ⟨hop, rfl⟩⟩
  · exact Or.inr ⟨op, ht, Or.inr ⟨l, hl, Nat.le_trans hleft hle⟩⟩

theorem climbs_stop {l m : Level} {least : Float} {e : Expr} {t : Token} {ts : List Token}
    (ht : Precedes m t) (hl : l.Threshold least) (hm : m ≠ .primary)
    (hlower : ∀ (op : Operator) (k : Level), op.level? = some k → k.left.rank ≤ m.rank →
      k.rank < l.rank) :
    Climbs stop (some e) least (t :: ts) (.ok e) (t :: ts) := by
  obtain hend | ⟨op, ht, ⟨hop, hprimary⟩ | ⟨k, hk, hleft⟩⟩ := ht
  · exact Climbs.ends hend
  · exact absurd hprimary hm
  · obtain ⟨p, hp⟩ := Operator.exists_power?_of_level? hk
    have hafter := Operator.ne_factorial_of_takes_two (Operator.takes_two_of_level? hk)
    exact Climbs.cutOff ht hp hafter ((Operator.left_lt_iff hk hp hl).2 (hlower op k hk hleft))

/-- Tokens of these kinds are read as the tree, whatever goes on from there and with any power
that lets the level through. -/
def Runs (stop : Nat) (m : Level) (ks : List Token.Kind) (e : Expr) : Prop :=
  ∀ (ts : List Token) (t : Token) (vs : List Token) (l : Level) (least : Float)
    (r : Except Error Expr) (us : List Token), ts.map Token.kind = ks → Precedes m t →
    l.Threshold least → l.rank ≤ m.rank → Climbs stop (some e) least (t :: vs) r us →
    Climbs stop none least (ts ++ t :: vs) r us

theorem Runs.mono {m n : Level} {ks : List Token.Kind} {e : Expr} (h : Runs stop n ks e)
    (hle : m.rank ≤ n.rank) : Runs stop m ks e := by
  intro ts t vs l least r us hts ht hl hlm hon
  exact h ts t vs l least r us hts (ht.mono hle) hl (Nat.le_trans hlm hle) hon

theorem Runs.leaf {k : Token.Kind} {a : Atom} (hk : k.atom? = some a) :
    Runs stop .primary [k] (atom a) := by
  intro ts t vs l least r us hts ht hl hlm hon
  obtain ⟨u, rfl, hu⟩ := List.map_eq_singleton_iff.1 hts
  subst hu
  exact Climbs.leaf hk hon

theorem Runs.between {m : Level} {op : Operator} {ks ks' : List Token.Kind} {left right : Expr}
    (hop : op.level? = some m) (hleft : Runs stop m.left ks left)
    (hright : Runs stop m.right ks' right) :
    Runs stop m (ks ++ .operator op :: ks') (binary op left right) := by
  intro ts t vs l least r us hts ht hl hlm hon
  obtain ⟨as, bs, rfl, has, hbs⟩ := List.map_eq_append_iff.1 hts
  obtain ⟨u, cs, rfl, hu, hcs⟩ := List.map_eq_cons_iff.1 hbs
  obtain ⟨p, hp⟩ := Operator.exists_power?_of_level? hop
  have hthreshold : m.right.Threshold p.right := Operator.threshold_right hop hp
  have hrank : m.rank < Level.factor.rank := Operator.rank_lt_factor hop
  have hm : m ≠ .primary := by
    rintro rfl
    exact absurd hrank (by decide)
  -- the right operand is read up to the token behind the whole operation
  have hoperand : Climbs stop none p.right (cs ++ t :: vs) (.ok right) (t :: vs) := by
    apply hright cs t vs m.right p.right (.ok right) (t :: vs) hcs (ht.mono m.rank_le_right)
      hthreshold (Nat.le_refl _)
    exact climbs_stop ht hthreshold hm fun _ _ _ => Level.rank_lt_right hrank
  have hcut : ¬ p.left < least := by
    rw [Operator.left_lt_iff hop hp hl]
    omega
  rw [List.append_assoc, List.cons_append]
  apply hleft as u (cs ++ t :: vs) l least r us has
    (Or.inr ⟨op, hu, Or.inr ⟨m, hop, Nat.le_refl _⟩⟩) hl (Nat.le_trans hlm m.rank_le_left)
  exact Climbs.between hu hp hcut (Operator.takes_two_of_level? hop) hoperand hon

theorem Runs.before {op : Operator} {ks : List Token.Kind} {e : Expr} (hop : op.isBefore = true)
    (h : Runs stop .factor ks e) : Runs stop .factor (.operator op :: ks) (unary op e) := by
  intro ts t vs l least r us hts ht hl hlm hon
  obtain ⟨u, cs, rfl, hu, hcs⟩ := List.map_eq_cons_iff.1 hts
  have hoperand : Climbs stop none Operator.unaryPower (cs ++ t :: vs) (.ok e) (t :: vs) := by
    apply h cs t vs .factor Operator.unaryPower (.ok e) (t :: vs) hcs ht .factor (Nat.le_refl _)
    exact climbs_stop ht .factor (by decide) fun _ _ hk _ => Operator.rank_lt_factor hk
  exact Climbs.before hu hop hoperand hon

theorem Runs.after {ks : List Token.Kind} {e : Expr} (h : Runs stop .primary ks e) :
    Runs stop .primary (ks ++ [.operator .factorial]) (unary .factorial e) := by
  intro ts t vs l least r us hts ht hl hlm hon
  obtain ⟨as, bs, rfl, has, hbs⟩ := List.map_eq_append_iff.1 hts
  obtain ⟨u, rfl, hu⟩ := List.map_eq_singleton_iff.1 hbs
  rw [List.append_assoc, List.singleton_append]
  exact h as u (t :: vs) l least r us has (Or.inr ⟨_, hu, Or.inl ⟨rfl, rfl⟩⟩) hl hlm
    (Climbs.after hu hon)

theorem Runs.group {ks : List Token.Kind} {e : Expr} (h : Runs stop .sum ks e) :
    Runs stop .primary (.operator .openParen :: (ks ++ [.operator .closeParen])) e := by
  intro ts t vs l least r us hts ht hl hlm hon
  obtain ⟨u, cs, rfl, hu, hcs⟩ := List.map_eq_cons_iff.1 hts
  obtain ⟨as, bs, rfl, has, hbs⟩ := List.map_eq_append_iff.1 hcs
  obtain ⟨close, rfl, hclose⟩ := List.map_eq_singleton_iff.1 hbs
  have hends : close.kind.endsExpr = true := by
    rw [hclose]
    rfl
  have hinner : Climbs stop none 0.0 (as ++ close :: t :: vs) (.ok e) (close :: t :: vs) :=
    h as close (t :: vs) .sum 0.0 (.ok e) _ has (Or.inl hends) .sum (Nat.le_refl _) (.ends hends)
  rw [List.cons_append, List.append_assoc, List.singleton_append]
  cases hend : atFinish (t :: vs) with
  | false => exact Climbs.group hu hinner hclose hend hon
  | true =>
    -- at the end marker the reader stops at once, as going on would
    have hfinish : (pull stop (t :: vs)).1.kind.endsExpr = true := by
      rw [pull_of_atFinish hend]
      rfl
    obtain ⟨rfl, rfl⟩ := climbs_unique hon (.ends hfinish)
    exact Climbs.groupLast hu hinner hclose hend

theorem runs_of_derives {m : Level} {ks : List Token.Kind} {e : Expr} (h : Derives m ks e) :
    Runs stop m ks e := by
  induction h with
  | sumOfProduct h ih => exact ih.mono (by decide)
  | @sum op ks ks' left right hop hleft hright ihLeft ihRight =>
    have hlevel : op.level? = some .sum := by
      cases op <;> first | rfl | exact absurd hop (by decide)
    exact Runs.between hlevel ihLeft ihRight
  | productOfPower h ih => exact ih.mono (by decide)
  | @product op ks ks' left right hop hleft hright ihLeft ihRight =>
    have hlevel : op.level? = some .product := by
      cases op <;> first | rfl | exact absurd hop (by decide)
    exact Runs.between hlevel ihLeft ihRight
  | powerOfFactor h ih => exact ih.mono (by decide)
  | @power op ks ks' left right hop hleft hright ihLeft ihRight =>
    have hlevel : op.level? = some .power := by
      cases op <;> first | rfl | exact absurd hop (by decide)
    exact Runs.between hlevel ihLeft ihRight
  | factorOfPrimary h ih => exact ih.mono (by decide)
  | @before op ks e hop h ih =>
    have hbefore : op.isBefore = true := by
      cases op <;> first | rfl | exact absurd hop (by decide)
    exact Runs.before hbefore ih
  | after h ih => exact ih.after
  | number n => exact Runs.leaf rfl
  | symbol s => exact Runs.leaf rfl
  | group h ih => exact ih.group

theorem climbs_of_derives {ts : List Token} {e : Expr} (h : Derives .sum (ts.map Token.kind) e) :
    Climbs stop none 0.0 (ts ++ [Token.finish stop]) (.ok e) [Token.finish stop] := by
  have hrun : Runs stop .sum (ts.map Token.kind) e := runs_of_derives h
  exact hrun ts (Token.finish stop) [] .sum 0.0 (.ok e) _ rfl (Or.inl rfl) .sum (Nat.le_refl _)
    (.ends rfl)

theorem derives_of_climbs {ts us : List Token} {e : Expr} (hts : ∀ t ∈ ts, t.kind ≠ .finish)
    (h : Climbs stop none 0.0 (ts ++ [Token.finish stop]) (.ok e) us)
    (hus : (pull stop us).1.kind = .finish) : Derives .sum (ts.map Token.kind) e := by
  obtain ⟨cs, hbody, he⟩ := reads_of_climbs .sum h
  have hrest : body us = [] := by
    rw [← body_pull stop us, body_finish hus]
  rw [body_append_finish hts, hrest, List.append_nil] at hbody
  rwa [hbody]

theorem parse_of_derives {source : String} {ts : List Token} {e : Expr}
    (hts : TokenStream.ofSource source =
      .ok ⟨ts ++ [Token.finish source.length], source.length⟩)
    (h : Derives .sum (ts.map Token.kind) e) : parse source = .ok e :=
  parse_of_climbs_finish hts (climbs_of_derives h) rfl

theorem parse_of_derives_parts {source : String} {e : Expr}
    (h : Derives .sum ((Lexeme.ofSource source).map Lexeme.kind) e) : parse source = .ok e := by
  obtain ⟨ts, hts, hkinds⟩ := Token.exists_ofSource source
  rw [← hkinds] at h
  exact parse_of_derives (TokenStream.ofSource_eq hts) h

theorem derives_parts_of_parse {source : String} {e : Expr} (h : parse source = .ok e) :
    Derives .sum ((Lexeme.ofSource source).map Lexeme.kind) e := by
  obtain ⟨ts, us, hts, hclimbs, hus⟩ := exists_climbs_of_parse h
  obtain ⟨ts', hts', hkinds⟩ := Token.exists_ofSource source
  obtain rfl := Except.ok.inj (hts.symm.trans hts')
  rw [← hkinds]
  exact derives_of_climbs (fun t => Token.kind_ne_finish_of_mem hts) hclimbs hus

/-- A source is read as a tree exactly when its tokens in front of the end marker are a sum of the
grammar with that tree. -/
theorem parse_eq_ok_iff_derives (source : String) (e : Expr) :
    parse source = .ok e ↔ ∃ ts : List Token,
      TokenStream.ofSource source =
        .ok ⟨ts ++ [Token.finish source.length], source.length⟩ ∧
      Derives .sum (ts.map Token.kind) e := by
  constructor
  · intro hparse
    obtain ⟨ts, hts, -⟩ := Token.exists_ofSource source
    have hs := TokenStream.ofSource_eq hts
    obtain ⟨r, us, h⟩ := exists_climbs none 0.0 (ts ++ [Token.finish source.length])
    refine ⟨ts, hs, ?_⟩
    cases r with
    | error err =>
      rw [parse_of_climbs_error hs h] at hparse
      cases hparse
    | ok e' =>
      by_cases hus : (pull source.length us).1.kind = .finish
      · rw [parse_of_climbs_finish hs h hus] at hparse
        cases hparse
        exact derives_of_climbs (fun t => Token.kind_ne_finish_of_mem hts) h hus
      · rw [parse_of_climbs_rest hs h hus] at hparse
        cases hparse
  · rintro ⟨ts, hs, he⟩
    exact parse_of_derives hs he

end Expr

end Formula
