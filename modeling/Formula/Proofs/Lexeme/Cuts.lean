import Formula.Proofs.Lexeme.Parts

namespace Formula.Lexeme

theorem isLetter_eq_false_of_ofMark? {c : Char} {op : Operator}
    (h : Operator.ofMark? c = some op) : isLetter c = false := by
  rw [isLetter, h]
  exact Bool.and_false _

theorem isDigit_eq_false_of_ofMark? {c : Char} {op : Operator}
    (h : Operator.ofMark? c = some op) : c.isDigit = false := by
  cases hd : c.isDigit with
  | false => rfl
  | true =>
    rw [Operator.ofMark?_of_isDigit hd] at h
    cases h

theorem runs_append_mark {c : Char} {op : Operator} (h : Operator.ofMark? c = some op)
    (cs ds : List Char) : runs (cs ++ c :: ds) = runs cs ++ mark op :: runs ds := by
  have hletter := isLetter_eq_false_of_ofMark? h
  have hdigit := isDigit_eq_false_of_ofMark? h
  have hleft : ∀ d ∈ cs.getLast?, sameRun d c = false := by
    intro d hd
    rw [sameRun, hletter, hdigit, Bool.and_false, Bool.and_false]
    rfl
  have hright : (c :: ds).splitBy sameRun = [c] :: ds.splitBy sameRun := by
    apply List.splitBy_append (l := [c])
    intro x hx d hd
    obtain rfl : c = x := Option.some.inj hx
    rw [sameRun, hletter, hdigit]
    rfl
  rw [runs, List.splitBy_append_cons ds hleft, hright, List.map_append, List.map_cons,
    ofRun_mark h]
  rfl

/-- A part that is in no chain of numbers. -/
def Breaks (l : Lexeme) : Prop := l ≠ mark .point ∧ ∀ ds, l ≠ number ds

theorem breaks_mark {op : Operator} (h : op ≠ .point) : Breaks (mark op) :=
  ⟨fun hl => h (Lexeme.mark.inj hl), fun _ => Lexeme.noConfusion⟩

theorem breaks_word (cs : List Char) : Breaks (word cs) :=
  ⟨Lexeme.noConfusion, fun _ => Lexeme.noConfusion⟩

theorem chain_append_cons {l : Lexeme} (h : Breaks l) (ls ms : List Lexeme) :
    chain (ls ++ l :: ms) = ((chain ls).1, (chain ls).2 ++ l :: ms) := by
  fun_induction chain ls with
  | case1 ds ls ih => rw [List.cons_append, List.cons_append, chain, ih]
  | case2 ls hls =>
    rw [chain]
    intro ds ns heq
    cases ls with
    | nil =>
      cases heq
      exact h.1 rfl
    | cons k ls =>
      cases ls with
      | nil =>
        cases heq
        exact h.2 ds rfl
      | cons m ls =>
        cases heq
        exact hls ds ls rfl

theorem joinChains_cons {l : Lexeme} (h : Breaks l) (ls : List Lexeme) :
    joinChains (l :: ls) = l :: joinChains ls := by
  cases l with
  | number ds => exact absurd rfl (h.2 ds)
  | word cs => rw [joinChains]
  | mark op => rw [joinChains]

theorem joinChains_append_cons {l : Lexeme} (h : Breaks l) (ls ms : List Lexeme) :
    joinChains (ls ++ l :: ms) = joinChains ls ++ l :: joinChains ms := by
  fun_induction joinChains ls with
  | case1 => exact joinChains_cons h ms
  | case2 d ls ih => rw [List.cons_append, joinChains, chain_append_cons h, ih, List.append_assoc]
  | case3 w ls ih => rw [List.cons_append, joinChains, ih, List.cons_append]
  | case4 op' ls ih => rw [List.cons_append, joinChains, ih, List.cons_append]

theorem ofChars_append_mark {c : Char} {op : Operator} (h : Operator.ofMark? c = some op)
    (hop : op ≠ .point) (cs ds : List Char) :
    ofChars (cs ++ c :: ds) = ofChars cs ++ mark op :: ofChars ds := by
  rw [ofChars, runs_append_mark h, joinChains_append_cons (breaks_mark hop), ofChars, ofChars]

theorem runs_of_sameRun {cs : List Char} (hne : cs ≠ [])
    (h : ∀ c ∈ cs, ∀ d ∈ cs, sameRun c d = true) : runs cs = [ofRun cs] := by
  have hchain : cs.IsChain fun c d => sameRun c d := (List.pairwise_of_forall_mem_list h).isChain
  rw [runs, List.splitBy_of_isChain hne hchain, List.map_singleton]

theorem runs_digits {cs : List Char} (h : Decimal.IsDigits cs) : runs cs = [number cs] := by
  obtain ⟨c, ds, rfl⟩ := List.exists_cons_of_ne_nil h.1
  rw [runs_of_sameRun h.1, ofRun_digit (h.2 c List.mem_cons_self)]
  intro x hx y hy
  rw [sameRun, h.2 x hx, h.2 y hy]
  rfl

theorem runs_letters {cs : List Char} (hne : cs ≠ []) (h : ∀ c ∈ cs, isLetter c = true) :
    runs cs = [word cs] := by
  obtain ⟨c, ds, rfl⟩ := List.exists_cons_of_ne_nil hne
  rw [runs_of_sameRun hne, ofRun_letter (h c List.mem_cons_self)]
  intro x hx y hy
  rw [sameRun, h x hx, h y hy]
  exact Bool.or_true _

theorem ofChars_decimal {cs : List Char} (h : Decimal.IsDecimal cs) : ofChars cs = [number cs] := by
  cases h with
  | whole h =>
    rw [ofChars, runs_digits h, joinChains, chain, joinChains]
    · rfl
    · intro _ _ hnil
      cases hnil
  | @fraction whole fraction h h' =>
    have hpoint : Operator.ofMark? '.' = some .point := rfl
    rw [ofChars, runs_append_mark hpoint, runs_digits h, runs_digits h', List.singleton_append,
      joinChains, chain, chain, joinChains]
    · rfl
    · intro _ _ hnil
      cases hnil

theorem ofChars_letters {cs : List Char} (hne : cs ≠ []) (h : ∀ c ∈ cs, isLetter c = true) :
    ofChars cs = [word cs] := by
  rw [ofChars, runs_letters hne h, joinChains, joinChains]

theorem ofChars_nil : ofChars [] = [] := by
  rw [ofChars, runs, List.splitBy_nil, List.map_nil, joinChains]

theorem ofChars_mark_cons {c : Char} {op : Operator} (h : Operator.ofMark? c = some op)
    (hop : op ≠ .point) (cs : List Char) : ofChars (c :: cs) = mark op :: ofChars cs := by
  have hcut := ofChars_append_mark h hop [] cs
  rwa [ofChars_nil] at hcut

theorem ofChars_append_group (cs ds es : List Char) :
    ofChars (cs ++ '(' :: (ds ++ ')' :: es)) =
      ofChars cs ++ mark .openParen :: (ofChars ds ++ mark .closeParen :: ofChars es) := by
  have hopen : Operator.ofMark? '(' = some .openParen := rfl
  have hclose : Operator.ofMark? ')' = some .closeParen := rfl
  rw [ofChars_append_mark hopen (by decide), ofChars_append_mark hclose (by decide)]

end Formula.Lexeme
