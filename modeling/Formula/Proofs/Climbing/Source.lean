import Formula.Proofs.Climbing.Rest
import Formula.Proofs.Lexing

namespace Formula.Expr

theorem parse_of_climbs {source : String} {ts us : List Token} {r : Except Error Expr}
    (hts : TokenStream.ofSource source = .ok ⟨ts, source.length⟩)
    (h : Climbs source.length none 0.0 ts r us) :
    parse source = r.bind fun e =>
      if (pull source.length us).1.kind = .finish then .ok e
      else .error (pull source.length us).1.unexpected := by
  rw [parse, hts]
  exact TokenStream.readWhole_of_climbs h

theorem parse_of_climbs_error {source : String} {ts us : List Token} {err : Error}
    (hts : TokenStream.ofSource source = .ok ⟨ts, source.length⟩)
    (h : Climbs source.length none 0.0 ts (.error err) us) : parse source = .error err :=
  parse_of_climbs hts h

theorem parse_of_climbs_finish {source : String} {ts us : List Token} {e : Expr}
    (hts : TokenStream.ofSource source = .ok ⟨ts, source.length⟩)
    (h : Climbs source.length none 0.0 ts (.ok e) us)
    (hus : (pull source.length us).1.kind = .finish) : parse source = .ok e := by
  rw [parse_of_climbs hts h]
  exact if_pos hus

theorem parse_of_climbs_rest {source : String} {ts us : List Token} {e : Expr}
    (hts : TokenStream.ofSource source = .ok ⟨ts, source.length⟩)
    (h : Climbs source.length none 0.0 ts (.ok e) us)
    (hus : (pull source.length us).1.kind ≠ .finish) :
    parse source = .error (pull source.length us).1.unexpected := by
  rw [parse_of_climbs hts h]
  exact if_neg hus

theorem exists_climbs_of_parse {source : String} {e : Expr} (h : parse source = .ok e) :
    ∃ ts us, Token.ofSource source = .ok ts ∧
      Climbs source.length none 0.0 (ts ++ [Token.finish source.length]) (.ok e) us ∧
      (pull source.length us).1.kind = .finish := by
  obtain ⟨ts, hts, -⟩ := Token.exists_ofSource source
  have hs := TokenStream.ofSource_eq hts
  obtain ⟨r, us, hclimbs⟩ : ∃ r us, Climbs source.length none 0.0
      (ts ++ [Token.finish source.length]) r us := exists_climbs _ _ _
  cases r with
  | error err =>
    rw [parse_of_climbs_error hs hclimbs] at h
    cases h
  | ok e' =>
    by_cases hus : (pull source.length us).1.kind = .finish
    · rw [parse_of_climbs_finish hs hclimbs hus] at h
      cases h
      exact ⟨ts, us, hts, hclimbs, hus⟩
    · rw [parse_of_climbs_rest hs hclimbs hus] at h
      cases h

end Formula.Expr
