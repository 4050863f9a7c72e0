import Mathlib.Data.List.Forall2
import Formula.Proofs.Climbing.Source

namespace Formula

namespace Expr

variable {stop stop' : Nat} {R : Token → Token → Prop}

/-- The results are the same tree, or errors of the same kind about tokens that `R` relates. -/
inductive Agrees (R : Token → Token → Prop) : Except Error Expr → Except Error Expr → Prop
  | ok (e : Expr) : Agrees R (.ok e) (.ok e)
  | unexpected {t u : Token} (h : R t u) : Agrees R (.error t.unexpected) (.error u.unexpected)
  | unmatched {t u c d : Token} (h : R t u) (ht : t.kind = .operator .openParen) (hc : R c d)
      (hfinish : c.kind = .finish) :
      Agrees R (.error (unmatched t c)) (.error (unmatched u d))

theorem Agrees.exists_error {err : Error} {r : Except Error Expr} (h : Agrees R (.error err) r) :
    ∃ err', r = .error err' := by
  cases h with
  | unexpected h => exact ⟨_, rfl⟩
  | unmatched h ht hc hfinish => exact ⟨_, rfl⟩

theorem atFinish_eq (hkind : ∀ t u, R t u → t.kind = u.kind) {ts us : List Token}
    (h : List.Forall₂ R ts us) : atFinish us = atFinish ts := by
  cases h with
  | nil => rfl
  | cons htu h => rw [atFinish, atFinish, hkind _ _ htu]

theorem forall₂_pull (hstop : R (Token.finish stop) (Token.finish stop')) {ts us : List Token}
    (h : List.Forall₂ R ts us) :
    R (pull stop ts).1 (pull stop' us).1 ∧ List.Forall₂ R (pull stop ts).2 (pull stop' us).2 := by
  cases h with
  | nil => exact ⟨hstop, .nil⟩
  | cons htu h => exact ⟨htu, h⟩

/-- The reader looks at nothing of a token but its kind: on tokens that are related one by one the
run goes the same way, and what it leaves is related again. -/
theorem Climbs.transfer (hkind : ∀ t u, R t u → t.kind = u.kind)
    (hstop : R (Token.finish stop) (Token.finish stop')) {m : Option Expr} {least : Float}
    {ts us ts' : List Token} {r : Except Error Expr} (h : Climbs stop m least ts r us)
    (hts : List.Forall₂ R ts ts') :
    ∃ r' us', Climbs stop' m least ts' r' us' ∧ Agrees R r r' ∧ List.Forall₂ R us us' := by
  induction h generalizing ts' with
  | leaf ht h ih =>
    cases hts with | cons htu hts =>
    obtain ⟨r', us', h', hr, hus⟩ := ih hts
    rw [hkind _ _ htu] at ht
    exact ⟨r', us', .leaf ht h', hr, hus⟩
  | groupFails ht h ih =>
    cases hts with | cons htu hts =>
    obtain ⟨r', us', h', hr, hus⟩ := ih hts
    rw [hkind _ _ htu] at ht
    obtain ⟨err', rfl⟩ := hr.exists_error
    exact ⟨_, us', .groupFails ht h', hr, hus⟩
  | groupOpen ht h hclose ih =>
    cases hts with | cons htu hts =>
    obtain ⟨r', us', h', ⟨_⟩, hus⟩ := ih hts
    obtain ⟨hpull, hrest⟩ := forall₂_pull hstop hus
    -- where a group is left open, its expression ends at no other token than the end marker
    have hend := endsExpr_of_ends (ends_of_climbs h)
    have hfinish := (Token.Kind.endsExpr_eq_true_iff.1 hend).resolve_right hclose
    have hagrees := Agrees.unmatched htu ht hpull hfinish
    rw [hkind _ _ htu] at ht
    rw [hkind _ _ hpull] at hclose
    exact ⟨_, _, .groupOpen ht h' hclose, hagrees, hrest⟩
  | groupLast ht h hclose hend ih =>
    cases hts with | cons htu hts =>
    obtain ⟨r', us', h', ⟨_⟩, hus⟩ := ih hts
    cases hus with | cons hcd hus =>
    rw [hkind _ _ htu] at ht
    rw [hkind _ _ hcd] at hclose
    rw [← atFinish_eq hkind hus] at hend
    exact ⟨_, _, .groupLast ht h' hclose hend, .ok _, hus⟩
  | group ht h hclose hend hon ih ihOn =>
    cases hts with | cons htu hts =>
    obtain ⟨r', us', h', ⟨_⟩, hus⟩ := ih hts
    cases hus with | cons hcd hus =>
    obtain ⟨r', vs', hon', hr, hvs⟩ := ihOn hus
    rw [hkind _ _ htu] at ht
    rw [hkind _ _ hcd] at hclose
    rw [← atFinish_eq hkind hus] at hend
    exact ⟨r', vs', .group ht h' hclose hend hon', hr, hvs⟩
  | beforeFails ht hop h ih =>
    cases hts with | cons htu hts =>
    obtain ⟨r', us', h', hr, hus⟩ := ih hts
    rw [hkind _ _ htu] at ht
    obtain ⟨err', rfl⟩ := hr.exists_error
    exact ⟨_, us', .beforeFails ht hop h', hr, hus⟩
  | before ht hop h hon ih ihOn =>
    cases hts with | cons htu hts =>
    obtain ⟨r', us', h', ⟨_⟩, hus⟩ := ih hts
    obtain ⟨r', vs', hon', hr, hvs⟩ := ihOn hus
    rw [hkind _ _ htu] at ht
    exact ⟨r', vs', .before ht hop h' hon', hr, hvs⟩
  | noOperand ht =>
    obtain ⟨hpull, hrest⟩ := forall₂_pull hstop hts
    rw [hkind _ _ hpull] at ht
    exact ⟨_, _, .noOperand ht, .unexpected hpull, hrest⟩
  | ends ht =>
    obtain ⟨hpull, hrest⟩ := forall₂_pull hstop hts
    rw [hkind _ _ hpull] at ht
    exact ⟨_, _, .ends ht, .ok _, .cons hpull hrest⟩
  | after ht hon ih =>
    cases hts with | cons htu hts =>
    obtain ⟨r', us', hon', hr, hus⟩ := ih hts
    rw [hkind _ _ htu] at ht
    exact ⟨r', us', .after ht hon', hr, hus⟩
  | cutOff ht hop hafter hp =>
    cases hts with | cons htu hts =>
    rw [hkind _ _ htu] at ht
    exact ⟨_, _, .cutOff ht hop hafter hp, .ok _, .cons htu hts⟩
  | betweenFails ht hop hafter hp h ih =>
    cases hts with | cons htu hts =>
    obtain ⟨r', us', h', hr, hus⟩ := ih hts
    rw [hkind _ _ htu] at ht
    obtain ⟨err', rfl⟩ := hr.exists_error
    exact ⟨_, us', .betweenFails ht hop hafter hp h', hr, hus⟩
  | misuse ht hop hafter hp htakes h ih =>
    cases hts with | cons htu hts =>
    obtain ⟨r', us', h', ⟨_⟩, hus⟩ := ih hts
    rw [hkind _ _ htu] at ht
    exact ⟨_, us', .misuse ht hop hafter hp htakes h', .unexpected htu, hus⟩
  | between ht hop hp htakes h hon ih ihOn =>
    cases hts with | cons htu hts =>
    obtain ⟨r', us', h', ⟨_⟩, hus⟩ := ih hts
    obtain ⟨r', vs', hon', hr, hvs⟩ := ihOn hus
    rw [hkind _ _ htu] at ht
    exact ⟨r', vs', .between ht hop hp htakes h' hon', hr, hvs⟩
  | noOperator hend ht =>
    cases hts with | cons htu hts =>
    rw [hkind _ _ htu] at hend ht
    exact ⟨_, _, .noOperator hend ht, .unexpected htu, hts⟩

theorem parse_agrees {source source' : String} {ts ts' : List Token}
    (hkind : ∀ t u, R t u → t.kind = u.kind)
    (hstop : R (Token.finish source.length) (Token.finish source'.length))
    (hs : TokenStream.ofSource source = .ok ⟨ts, source.length⟩)
    (hs' : TokenStream.ofSource source' = .ok ⟨ts', source'.length⟩)
    (hts : List.Forall₂ R ts ts') : Agrees R (parse source) (parse source') := by
  obtain ⟨r, us, h⟩ : ∃ r us, Climbs source.length none 0.0 ts r us := exists_climbs _ _ _
  obtain ⟨r', us', h', hr, hus⟩ := h.transfer hkind hstop hts
  obtain ⟨hpull, -⟩ := forall₂_pull hstop hus
  rw [parse_of_climbs hs h, parse_of_climbs hs' h']
  cases hr with
  | ok e =>
    simp only [Except.bind, ← hkind _ _ hpull]
    split
    · exact .ok e
    · exact .unexpected hpull
  | unexpected htu => exact .unexpected htu
  | unmatched htu ht hc hfinish => exact .unmatched htu ht hc hfinish

end Expr

/-- The tokens stand at the same place, one of them in `ts` and the other in `us`. -/
def SamePlace (ts us : List Token) (t u : Token) : Prop :=
  ∃ i : Nat, ts[i]? = some t ∧ us[i]? = some u

theorem forall₂_samePlace {ts us : List Token} (h : ts.length = us.length) :
    List.Forall₂ (SamePlace ts us) ts us := by
  rw [List.forall₂_iff_get]
  refine ⟨h, ?_⟩
  intro i hi hi'
  exact ⟨i, by simp [hi], by simp [hi']⟩

theorem SamePlace.kind_eq {ts us : List Token} (h : ts.map Token.kind = us.map Token.kind)
    {t u : Token} (htu : SamePlace ts us t u) : t.kind = u.kind := by
  obtain ⟨i, ht, hu⟩ := htu
  have hi : (ts.map Token.kind)[i]? = (us.map Token.kind)[i]? := by rw [h]
  simpa [ht, hu] using hi

theorem eq_finish_of_mem {source : String} {ts : List Token} (hts : Token.ofSource source = .ok ts)
    {t : Token} (ht : t ∈ ts ++ [Token.finish source.length]) (hk : t.kind = .finish) :
    t = Token.finish source.length := by
  obtain ht | ht := List.mem_append.1 ht
  · exact absurd hk (Token.kind_ne_finish_of_mem hts ht)
  · exact List.mem_singleton.1 ht

/-- Two sources with the same characters but for white space are read as the same tree, or there is
the same thing wrong with both. The error is then about one token, which has the same place in both
sources, or reaches from the parenthesis at the same place to the end of each source. -/
theorem parse_respaced {source source' : String}
    (h : Lexeme.visible source = Lexeme.visible source') : ∃ ts ts' : List Token,
    TokenStream.ofSource source = .ok ⟨ts, source.length⟩ ∧
    TokenStream.ofSource source' = .ok ⟨ts', source'.length⟩ ∧
    ts.map Token.kind = ts'.map Token.kind ∧
    ((∃ e, Expr.parse source = .ok e ∧ Expr.parse source' = .ok e) ∨
      ∃ (i : Nat) (t t' : Token), ts[i]? = some t ∧ ts'[i]? = some t' ∧
        ((Expr.parse source = .error ⟨.unexpectedToken t.text, t.span⟩ ∧
            Expr.parse source' = .error ⟨.unexpectedToken t.text, t'.span⟩) ∨
          (t.kind = .operator .openParen ∧
            Expr.parse source =
              .error ⟨.unmatchedParenthesis, ⟨t.span.start, source.length⟩⟩ ∧
            Expr.parse source' =
              .error ⟨.unmatchedParenthesis, ⟨t'.span.start, source'.length⟩⟩))) := by
  obtain ⟨ts, hts, hkinds⟩ := Token.exists_ofSource source
  obtain ⟨ts', hts', hkinds'⟩ := Token.exists_ofSource source'
  have hs := TokenStream.ofSource_eq hts
  have hs' := TokenStream.ofSource_eq hts'
  have hsame : ts.map Token.kind = ts'.map Token.kind := by
    rw [hkinds, hkinds', Lexeme.ofSource, h, Lexeme.ofSource]
  have hlength : ts.length = ts'.length := by
    simpa using congrArg List.length hsame
  have hall : (ts ++ [Token.finish source.length]).map Token.kind =
      (ts' ++ [Token.finish source'.length]).map Token.kind := by
    rw [List.map_append, List.map_append, hsame]
    rfl
  have hstop : SamePlace (ts ++ [Token.finish source.length]) (ts' ++ [Token.finish source'.length])
      (Token.finish source.length) (Token.finish source'.length) :=
    ⟨ts.length, List.getElem?_concat_length, by rw [hlength]; exact List.getElem?_concat_length⟩
  refine ⟨_, _, hs, hs', hall, ?_⟩
  have hagrees := Expr.parse_agrees (fun t u => SamePlace.kind_eq hall) hstop hs hs'
    (forall₂_samePlace (by simp [hlength]))
  generalize Expr.parse source = r, Expr.parse source' = r' at hagrees ⊢
  cases hagrees with
  | ok e => exact Or.inl ⟨e, rfl, rfl⟩
  | @unexpected t u htu =>
    have hk : u.kind = t.kind := (SamePlace.kind_eq hall htu).symm
    obtain ⟨i, ht, hu⟩ := htu
    refine Or.inr ⟨i, t, u, ht, hu, Or.inl ⟨rfl, ?_⟩⟩
    rw [Token.unexpected, Token.error, Token.text, hk]
    rfl
  | @unmatched t u c d htu ht hcd hfinish =>
    obtain ⟨i, hi, hi'⟩ := htu
    have hfinish' : d.kind = .finish := SamePlace.kind_eq hall hcd ▸ hfinish
    obtain ⟨j, hj, hj'⟩ := hcd
    obtain rfl := eq_finish_of_mem hts (List.mem_of_getElem? hj) hfinish
    obtain rfl := eq_finish_of_mem hts' (List.mem_of_getElem? hj') hfinish'
    exact Or.inr ⟨i, t, u, hi, hi', Or.inr ⟨ht, rfl, rfl⟩⟩

theorem parse_respaced_open_parenthesis :
    Lexeme.visible "1 2*(s in\tx+3 . 4" = Lexeme.visible " 12 * ( sin x + 3.4 " ∧
    ∃ (ts ts' : List Token) (i : Nat) (t t' : Token), ts.map Token.kind = ts'.map Token.kind ∧
      ts[i]? = some t ∧ ts'[i]? = some t' ∧ t.kind = .operator .openParen ∧
      Expr.parse "1 2*(s in\tx+3 . 4" = .error ⟨.unmatchedParenthesis, ⟨t.span.start, 17⟩⟩ ∧
      Expr.parse " 12 * ( sin x + 3.4 " = .error ⟨.unmatchedParenthesis, ⟨t'.span.start, 20⟩⟩ := by
  have hvisible : Lexeme.visible "1 2*(s in\tx+3 . 4" = Lexeme.visible " 12 * ( sin x + 3.4 " := by
    decide +kernel
  have hparse : Expr.parse "1 2*(s in\tx+3 . 4" = .error ⟨.unmatchedParenthesis, ⟨4, 17⟩⟩ := by
    decide +kernel
  obtain ⟨ts, ts', -, -, hkinds, ⟨e, he, -⟩ | ⟨i, t, t', ht, ht', hagrees⟩⟩ :=
    parse_respaced hvisible
  · cases hparse.symm.trans he
  · obtain ⟨hunexpected, -⟩ | ⟨hopen, herr, herr'⟩ := hagrees
    · cases hparse.symm.trans hunexpected
    · exact ⟨hvisible, ts, ts', i, t, t', hkinds, ht, ht', hopen, herr, herr'⟩

end Formula
