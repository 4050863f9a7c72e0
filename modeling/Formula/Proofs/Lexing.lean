import Formula.Proofs.Lexeme.Parts

namespace Formula

namespace Lexeme

def rawKind : Lexeme → Token.Kind
  | number cs => .number (numberOf cs)
  | word cs => .symbol (Symbol.ofName (String.ofList cs))
  | mark op => .operator op

theorem eq_number_of_rawKind {l : Lexeme} {n : Number} (h : l.rawKind = .number n) :
    ∃ cs, l = number cs := by
  cases l with
  | number cs => exact ⟨cs, rfl⟩
  | word cs => cases h
  | mark op => cases h

theorem eq_number_of_kind {l : Lexeme} {n : Number} (h : l.kind = .number n) :
    ∃ cs, l = number cs ∧ n = numberOf cs := by
  cases l with
  | number cs =>
    cases h
    exact ⟨cs, rfl, rfl⟩
  | mark op => cases h
  | word cs =>
    rw [kind] at h
    split at h <;> cases h

theorem eq_mark_of_rawKind {l : Lexeme} {op : Operator} (h : l.rawKind = .operator op) :
    l = mark op := by
  cases l with
  | number cs => cases h
  | word cs => cases h
  | mark op' =>
    cases h
    rfl

theorem read_numberOf {cs : List Char} (h : Decimal.IsDecimal cs) :
    Number.read (String.ofList cs) = .ok (numberOf cs) := by
  obtain ⟨x, hx⟩ := Option.isSome_iff_exists.1 (Decimal.readFloat?_isSome h)
  rw [Number.read, numberOf, hx]
  rfl

theorem append_numberOf {cs ds : List Char} (h : Decimal.IsDigits cs) (h' : Decimal.IsDigits ds) :
    (numberOf cs).append (numberOf ds) = .ok (numberOf (cs ++ ds)) := by
  rw [Number.append, numberOf, numberOf, ← String.ofList_append]
  exact read_numberOf (.whole (Decimal.isDigits_append h h'))

theorem withFraction_numberOf {cs ds : List Char} (h : Decimal.IsDigits cs)
    (h' : Decimal.IsDigits ds) :
    (numberOf cs).withFraction (numberOf ds) = .ok (numberOf (cs ++ '.' :: ds)) := by
  have htext : String.ofList cs ++ "." ++ String.ofList ds = String.ofList (cs ++ '.' :: ds) := by
    apply String.toList_inj.1
    simp
  rw [Number.withFraction, numberOf, numberOf, htext]
  exact read_numberOf (.fraction h h')

end Lexeme

namespace Token

open Lexeme

/-- Tokens that are these parts, wherever they stand. -/
def Spells (ts : List Token) (ls : List Lexeme) : Prop := ts.map kind = ls.map rawKind

theorem ofChar_eq_rawKind (c : Char) : Kind.ofChar c = .ok (single c).rawKind := by
  rw [Kind.ofChar, Operator.ofChar?_eq_ofMark?, single]
  obtain h | h | ⟨op, h⟩ := digit_or_letter_or_mark c
  · have hread : Number.read (String.ofList [c]) = .ok (numberOf [c]) :=
      read_numberOf (.whole ⟨List.cons_ne_nil c [], by simpa using h⟩)
    rw [ofRun_digit h]
    simp only [Operator.ofMark?_of_isDigit h, h, if_true]
    rw [String.singleton_eq_ofList, hread]
    rfl
  · rw [ofRun_letter h]
    simp only [isLetter, Bool.and_eq_true, Bool.not_eq_true', Option.isNone_iff_eq_none] at h
    simp only [h.1, h.2, Bool.false_eq_true, if_false]
    rw [String.singleton_eq_ofList]
    rfl
  · rw [ofRun_mark h]
    simp only [h]
    rfl

theorem scan_spells (start : Nat) (cs : List Char) :
    ∃ ts, scan start cs = .ok ts ∧
      Spells ts ((cs.filter fun c => !Text.isBlank c).map single) := by
  induction cs generalizing start with
  | nil => exact ⟨[], rfl, rfl⟩
  | cons c cs ih =>
    obtain ⟨ts, hts, hspells⟩ := ih (start + 1)
    rw [scan]
    cases hb : Text.isBlank c with
    | true =>
      refine ⟨ts, by simpa using hts, ?_⟩
      rwa [List.filter_cons_of_neg (by simp [hb])]
    | false =>
      refine ⟨⟨(single c).rawKind, ⟨start, start + 1⟩⟩ :: ts, ?_, ?_⟩
      · simp only [Bool.false_eq_true, if_false, ofChar_eq_rawKind, hts]
        rfl
      · rw [List.filter_cons_of_pos (by simp [hb]), Spells, List.map_cons, List.map_cons,
          List.map_cons]
        exact congrArg _ hspells

theorem spells_cons_iff {t : Token} {ts : List Token} {l : Lexeme} {ls : List Lexeme} :
    Spells (t :: ts) (l :: ls) ↔ t.kind = l.rawKind ∧ Spells ts ls := by
  rw [Spells, List.map_cons, List.map_cons, List.cons.injEq, Spells]

theorem glue_spells {join : Token → Token → Except Error (Option Token)}
    {join' : Lexeme → Lexeme → Option Lexeme} {P : Lexeme → Prop}
    (hsome : ∀ {t u : Token} {l m n : Lexeme}, t.kind = l.rawKind → u.kind = m.rawKind →
      P l → P m → join' l m = some n → ∃ v, join t u = .ok (some v) ∧ v.kind = n.rawKind)
    (hnone : ∀ {t u : Token} {l m : Lexeme}, t.kind = l.rawKind → u.kind = m.rawKind →
      join' l m = none → join t u = .ok none)
    (hP : ∀ l m n, join' l m = some n → P l → P m → P n)
    {ts : List Token} {ls : List Lexeme} (h : Spells ts ls) (hls : ∀ l ∈ ls, P l) :
    ∃ us, Token.glue join ts = .ok us ∧ Spells us (Lexeme.glue join' ls) := by
  induction ls generalizing ts with
  | nil =>
    obtain rfl := List.map_eq_nil_iff.1 h
    exact ⟨[], rfl, rfl⟩
  | cons l ls ih =>
    cases ts with
    | nil => cases h
    | cons t ts =>
      -- the first is joined to what the others have been joined to
      obtain ⟨ht, hts⟩ := spells_cons_iff.1 h
      have htail : ∀ m ∈ ls, P m := fun m hm => hls m (List.mem_cons_of_mem l hm)
      obtain ⟨us, hus, hspells⟩ := ih hts htail
      have hmem := forall_mem_glue hP htail
      rw [Token.glue, hus, glue_cons]
      cases hglue : Lexeme.glue join' ls with
      | nil =>
        rw [hglue] at hspells
        obtain rfl := List.map_eq_nil_iff.1 hspells
        exact ⟨[t], rfl, spells_cons_iff.2 ⟨ht, rfl⟩⟩
      | cons m ms =>
        rw [hglue] at hspells hmem
        cases us with
        | nil => cases hspells
        | cons u us =>
          obtain ⟨hu, hus'⟩ := spells_cons_iff.1 hspells
          rw [attach]
          cases hjoin : join' l m with
          | none =>
            refine ⟨t :: u :: us, ?_, spells_cons_iff.2 ⟨ht, hspells⟩⟩
            simp only [bind, Except.bind, hnone ht hu hjoin]
            rfl
          | some n =>
            obtain ⟨v, hv, hkind⟩ := hsome ht hu (hls l List.mem_cons_self)
              (hmem m List.mem_cons_self) hjoin
            refine ⟨v :: us, ?_, spells_cons_iff.2 ⟨hkind, hus'⟩⟩
            simp only [bind, Except.bind, hv]
            rfl

theorem glue_joinNumbers_spells {ts : List Token} {ls : List Lexeme} (h : Spells ts ls)
    (hls : ∀ l ∈ ls, IsRun l) :
    ∃ us, Token.glue joinNumbers ts = .ok us ∧ Spells us (Lexeme.glue joinNumbers? ls) := by
  refine glue_spells ?_ ?_ (fun l m n hjoin => isRun_of_joinRuns? (joinRuns?_of_joinNumbers? hjoin))
    h hls
  · intro t u l m n ht hu hl hm hjoin
    match l, m, hjoin with
    | number cs, number ds, rfl =>
      refine ⟨⟨.number (numberOf (cs ++ ds)), t.span.cover u.span⟩, ?_, rfl⟩
      rw [joinNumbers, ht, hu]
      simp only [rawKind, append_numberOf hl hm]
      rfl
  · intro t u l m ht hu hjoin
    rw [joinNumbers, ht, hu]
    cases l <;> cases m <;> first | rfl | cases hjoin

theorem glue_joinSymbols_spells {ts : List Token} {ls : List Lexeme} (h : Spells ts ls) :
    ∃ us, Token.glue joinSymbols ts = .ok us ∧ Spells us (Lexeme.glue joinWords? ls) := by
  refine glue_spells (P := fun _ => True) ?_ ?_ (fun _ _ _ _ _ _ => trivial) h
    (fun _ _ => trivial)
  · intro t u l m n ht hu _ _ hjoin
    match l, m, hjoin with
    | word cs, word ds, rfl =>
      refine ⟨⟨.symbol (Symbol.ofName (String.ofList (cs ++ ds))), t.span.cover u.span⟩, ?_, rfl⟩
      rw [joinSymbols, ht, hu, String.ofList_append]
      rfl
  · intro t u l m ht hu hjoin
    rw [joinSymbols, ht, hu]
    cases l <;> cases m <;> first | rfl | cases hjoin

theorem exists_cons_of_spells {ts : List Token} {l : Lexeme} {ls : List Lexeme}
    (h : Spells ts (l :: ls)) :
    ∃ t us, ts = t :: us ∧ t.kind = l.rawKind ∧ Spells us ls := by
  cases ts with
  | nil => cases h
  | cons t us => exact ⟨t, us, rfl, spells_cons_iff.1 h⟩

theorem exists_lexeme_of_spells {t : Token} {ts : List Token} {ls : List Lexeme}
    (h : Spells (t :: ts) ls) : ∃ l ms, ls = l :: ms ∧ t.kind = l.rawKind ∧ Spells ts ms := by
  cases ls with
  | nil => cases h
  | cons l ms => exact ⟨l, ms, rfl, spells_cons_iff.1 h⟩

theorem joinPointsBackward_cons {t : Token} {ts us : List Token}
    (h : ∀ f w p u vs, t.kind = .number f → ts = p :: u :: vs → p.kind = .operator .point →
      u.kind ≠ .number w)
    (hus : joinPointsBackward ts = .ok us) : joinPointsBackward (t :: ts) = .ok (t :: us) := by
  match ts with
  | [] =>
    cases hus
    rfl
  | [p] =>
    cases hus
    rfl
  | p :: u :: vs =>
    rw [joinPointsBackward]
    split
    · next f w ht hp hu => exact absurd hu (h f w p u vs ht rfl hp)
    · rw [hus]
      rfl

theorem joinPointsBackward_spells {ts : List Token} {ls : List Lexeme} (h : Spells ts ls)
    (hls : ∀ l ∈ ls, IsRun l) :
    ∃ us, joinPointsBackward ts = .ok us ∧ Spells us (pairPoints ls) := by
  fun_induction pairPoints ls generalizing ts with
  | case1 fraction whole ls ih =>
    obtain ⟨t, ts, rfl, ht, h⟩ := exists_cons_of_spells h
    obtain ⟨p, ts, rfl, hp, h⟩ := exists_cons_of_spells h
    obtain ⟨u, ts, rfl, hu, h⟩ := exists_cons_of_spells h
    obtain ⟨us, hus, hspells⟩ := ih h fun l hl => hls l (by simp [hl])
    have hfraction : IsRun (number fraction) := hls _ (by simp)
    have hwhole : IsRun (number whole) := hls _ (by simp)
    refine ⟨⟨.number (numberOf (whole ++ '.' :: fraction)), u.span.cover t.span⟩ :: us, ?_,
      spells_cons_iff.2 ⟨rfl, hspells⟩⟩
    rw [joinPointsBackward, ht, hp, hu]
    simp only [rawKind, withFraction_numberOf hwhole hfraction, hus]
    rfl
  | case2 l ls hl ih =>
    obtain ⟨t, ts, rfl, ht, h⟩ := exists_cons_of_spells h
    obtain ⟨us, hus, hspells⟩ := ih h fun m hm => hls m (List.mem_cons_of_mem l hm)
    refine ⟨t :: us, joinPointsBackward_cons ?_ hus, spells_cons_iff.2 ⟨ht, hspells⟩⟩
    rintro f w p u vs hf rfl hp hw
    obtain ⟨m, ms, rfl, hm, h⟩ := exists_lexeme_of_spells h
    obtain ⟨n, ns, rfl, hn, -⟩ := exists_lexeme_of_spells h
    obtain ⟨fs, rfl⟩ := eq_number_of_rawKind (ht.symm.trans hf)
    obtain rfl := eq_mark_of_rawKind (hm.symm.trans hp)
    obtain ⟨ws, rfl⟩ := eq_number_of_rawKind (hn.symm.trans hw)
    exact hl fs ws ns rfl rfl
  | case3 =>
    obtain rfl := List.map_eq_nil_iff.1 h
    exact ⟨[], rfl, rfl⟩

theorem joinPoints_spells {ts : List Token} {ls : List Lexeme} (h : Spells ts ls)
    (hls : ∀ l ∈ ls, IsRun l) :
    ∃ us, joinPoints ts = .ok us ∧ Spells us (pairPoints ls.reverse).reverse := by
  have hrev : Spells ts.reverse ls.reverse := by
    rw [Spells, List.map_reverse, List.map_reverse, h]
  obtain ⟨us, hus, hspells⟩ :=
    joinPointsBackward_spells hrev fun l hl => hls l (List.mem_reverse.1 hl)
  refine ⟨us.reverse, ?_, ?_⟩
  · rw [joinPoints, hus]
    rfl
  · rw [Spells, List.map_reverse, List.map_reverse, hspells]

/-- Among letters, only words are operators. -/
theorem ofSymbol?_eq_ofWord? {cs : List Char} (h : ∀ c ∈ cs, isLetter c = true) :
    Operator.ofSymbol? (String.ofList cs) = Operator.ofWord? (String.ofList cs) := by
  cases hw : Operator.ofWord? (String.ofList cs) with
  | some op =>
    have hsymbol : op.symbol = String.ofList cs := by simpa using List.find?_some hw
    exact Operator.ofSymbol?_eq_some_iff.2 hsymbol
  | none =>
    apply Option.eq_none_iff_forall_ne_some.2
    intro op hop
    have hsymbol := Operator.ofSymbol?_eq_some_iff.1 hop
    have hcs : op.symbol.toList = cs := by rw [hsymbol, String.toList_ofList]
    rw [← hsymbol] at hw
    -- the nine marks are no letters, and the other four are words
    cases op <;> first
      | exact absurd hw (by decide)
      | (subst hcs; exact absurd (h _ List.mem_cons_self) (by decide))

theorem kind_nameOperator {t : Token} {l : Lexeme} (ht : t.kind = l.rawKind) (hl : IsPart l) :
    (nameOperator t).kind = l.kind := by
  cases l with
  | number cs =>
    rw [nameOperator, ht]
    exact ht
  | mark op =>
    rw [nameOperator, ht]
    exact ht
  | word cs =>
    rw [nameOperator, ht, Lexeme.kind, ← ofSymbol?_eq_ofWord? hl.2]
    simp only [rawKind, Symbol.ofName]
    cases Operator.ofSymbol? (String.ofList cs) with
    | none => exact ht
    | some op => rfl

theorem map_nameOperator {ts : List Token} {ls : List Lexeme} (h : Spells ts ls)
    (hls : ∀ l ∈ ls, IsPart l) : (ts.map nameOperator).map kind = ls.map Lexeme.kind := by
  induction ls generalizing ts with
  | nil =>
    obtain rfl := List.map_eq_nil_iff.1 h
    rfl
  | cons l ls ih =>
    obtain ⟨t, ts, rfl, ht, hts⟩ := exists_cons_of_spells h
    rw [List.map_cons, List.map_cons, List.map_cons,
      kind_nameOperator ht (hls l List.mem_cons_self),
      ih hts fun m hm => hls m (List.mem_cons_of_mem l hm)]

theorem exists_ofSource (source : String) :
    ∃ ts, ofSource source = .ok ts ∧ ts.map kind = (Lexeme.ofSource source).map Lexeme.kind := by
  obtain ⟨scanned, hscan, hspells⟩ := scan_spells 0 source.toList
  obtain ⟨numbers, hnumbers, hspells⟩ :=
    glue_joinNumbers_spells hspells fun _ => isRun_of_mem_single
  obtain ⟨decimals, hdecimals, hspells⟩ := joinPoints_spells hspells
    (forall_mem_glue (fun l m n hjoin => isRun_of_joinRuns? (joinRuns?_of_joinNumbers? hjoin))
      fun _ => isRun_of_mem_single)
  obtain ⟨symbols, hsymbols, hspells⟩ := glue_joinSymbols_spells hspells
  rw [passes_eq_ofChars] at hspells
  refine ⟨symbols.map nameOperator, ?_, ?_⟩
  · rw [ofSource, hscan]
    simp only [bind, Except.bind, hnumbers, hdecimals, hsymbols]
    rfl
  · rw [map_nameOperator hspells fun _ => isPart_of_mem_ofChars, Lexeme.ofSource, Lexeme.visible]

theorem kind_ne_finish (l : Lexeme) : l.kind ≠ .finish := by
  cases l with
  | number cs => exact fun h => nomatch h
  | mark op => exact fun h => nomatch h
  | word cs =>
    rw [Lexeme.kind]
    split <;> exact fun h => nomatch h

theorem kind_ne_finish_of_mem {source : String} {ts : List Token} (h : ofSource source = .ok ts)
    {t : Token} (ht : t ∈ ts) : t.kind ≠ .finish := by
  obtain ⟨us, hus, hkinds⟩ := exists_ofSource source
  obtain rfl := Except.ok.inj (h.symm.trans hus)
  have hmem : t.kind ∈ ts.map kind := List.mem_map_of_mem ht
  rw [hkinds] at hmem
  obtain ⟨l, -, hl⟩ := List.mem_map.1 hmem
  exact hl ▸ kind_ne_finish l

theorem readFloat?_of_number_mem {source : String} {n : Number}
    (h : .number n ∈ (Lexeme.ofSource source).map Lexeme.kind) :
    Decimal.readFloat? n.text = some n.value := by
  obtain ⟨l, hl, hkind⟩ := List.mem_map.1 h
  obtain ⟨cs, rfl, rfl⟩ := eq_number_of_kind hkind
  obtain ⟨x, hx⟩ := Option.isSome_iff_exists.1
    (Decimal.readFloat?_isSome (isPart_of_mem_ofChars hl))
  rw [numberOf, hx]
  rfl

end Token

namespace TokenStream

theorem ofSource_eq {source : String} {ts : List Token} (h : Token.ofSource source = .ok ts) :
    ofSource source = .ok ⟨ts ++ [Token.finish source.length], source.length⟩ := by
  rw [ofSource, h]
  rfl

/-- Every source is read, and what its tokens are is what one reading from left to right makes of
it: the white space is left out, the rest is cut into runs of digits, runs of letters and marks,
and the runs of digits in a chain are taken in pairs from its end. A number has the value that its
text reads as. -/
theorem kinds_eq_parts (source : String) :
    ∃ s : TokenStream, ofSource source = .ok s ∧ s.stop = source.length ∧
      s.tokens.map Token.kind = (Lexeme.ofSource source).map Lexeme.kind ++ [.finish] ∧
      ∀ n, .number n ∈ s.tokens.map Token.kind → Decimal.readFloat? n.text = some n.value := by
  obtain ⟨ts, hts, hkinds⟩ := Token.exists_ofSource source
  refine ⟨_, ofSource_eq hts, rfl, ?_, ?_⟩
  · rw [List.map_append, hkinds]
    rfl
  · intro n hn
    rw [List.map_append, hkinds] at hn
    obtain hn | hn := List.mem_append.1 hn
    · exact Token.readFloat?_of_number_mem hn
    · cases List.mem_singleton.1 hn

theorem kinds_of_chain : ∃ s, ofSource "1.2.3 s in" = .ok s ∧
    s.tokens.map Token.kind = [.number ⟨"1", 1.0⟩, .operator .point, .number ⟨"2.3", 2.3⟩,
      .operator .sin, .finish] ∧
    Decimal.readFloat? "2.3" = some 2.3 := by
  obtain ⟨s, hs, -, hkinds, hvalue⟩ := kinds_eq_parts "1.2.3 s in"
  have hparts : (Lexeme.ofSource "1.2.3 s in").map Lexeme.kind ++ [.finish] =
      [.number ⟨"1", 1.0⟩, .operator .point, .number ⟨"2.3", 2.3⟩, .operator .sin, .finish] := by
    decide +kernel
  rw [hparts] at hkinds
  refine ⟨s, hs, hkinds, hvalue ⟨"2.3", 2.3⟩ ?_⟩
  rw [hkinds]
  simp

end TokenStream

end Formula
