import Formula.Proofs.Lexeme.Cuts

namespace Formula.Lexeme

def chars : Lexeme → List Char
  | number cs => cs
  | word cs => cs
  | mark op => op.symbol.toList

theorem chars_of_joinRuns? {l m n : Lexeme} (h : joinRuns? l m = some n) :
    n.chars = l.chars ++ m.chars := by
  cases l <;> cases m <;> cases h <;> rfl

theorem chars_single (c : Char) : (single c).chars = [c] := by
  obtain h | h | ⟨op, h⟩ := digit_or_letter_or_mark c
  · rw [single, ofRun_digit h, chars]
  · rw [single, ofRun_letter h, chars]
  · rw [single, ofRun_mark h, chars, Operator.ofMark?_eq_some_iff.1 h, String.toList_singleton]

theorem flatMap_chars_runs (cs : List Char) : (runs cs).flatMap chars = cs := by
  induction cs with
  | nil => rfl
  | cons c cs ih =>
    rw [runs_cons]
    cases hruns : runs cs with
    | nil =>
      rw [hruns] at ih
      simp [attach, chars_single, ← ih]
    | cons m ls =>
      rw [hruns] at ih
      rw [attach]
      cases hjoin : joinRuns? (single c) m with
      | none => simpa [chars_single] using ih
      | some n =>
        simpa [chars_of_joinRuns? hjoin, chars_single] using ih

theorem flatMap_pairPoints {α : Type} {f : Lexeme → List α}
    (hf : ∀ ds es, f (number (ds ++ '.' :: es)) =
      f (number ds) ++ (f (mark .point) ++ f (number es))) (ls : List Lexeme) :
    (pairPoints ls).reverse.flatMap f = ls.reverse.flatMap f := by
  fun_induction pairPoints ls with
  | case1 fraction whole ls ih => simp [ih, hf]
  | case2 l ls h ih => simp [ih]
  | case3 => rfl

/-- What is made of each part is the same before and after the numbers in chains are joined, if it
goes apart at the point of a number. -/
theorem flatMap_joinChains {α : Type} {f : Lexeme → List α}
    (hf : ∀ ds es, f (number (ds ++ '.' :: es)) =
      f (number ds) ++ (f (mark .point) ++ f (number es))) (ls : List Lexeme) :
    (joinChains ls).flatMap f = ls.flatMap f := by
  rw [← pairPoints_reverse, flatMap_pairPoints hf, List.reverse_reverse]

theorem splitBy_eq_append {α : Type} {r : α → α → Bool} {l : List α} {gs hs : List (List α)}
    (h : l.splitBy r = gs ++ hs) : l = gs.flatten ++ hs.flatten ∧
      gs.flatten.splitBy r = gs ∧ hs.flatten.splitBy r = hs := by
  rw [List.splitBy_eq_iff] at h
  obtain ⟨hl, hnil, hchain, hbound⟩ := h
  obtain ⟨hgnil, hhnil⟩ := not_or.1 (mt List.mem_append.2 hnil)
  obtain ⟨hgchain, hhchain⟩ := List.forall_mem_append.1 hchain
  obtain ⟨hgbound, hhbound, -⟩ := List.isChain_append.1 hbound
  refine ⟨by rw [hl, List.flatten_append], ?_, ?_⟩
  · exact List.splitBy_flatten hgnil hgchain hgbound
  · exact List.splitBy_flatten hhnil hhchain hhbound

theorem exists_runs_of_append {cs : List Char} {ls ms : List Lexeme} (h : runs cs = ls ++ ms) :
    ∃ ds es, cs = ds ++ es ∧ runs ds = ls ∧ runs es = ms := by
  obtain ⟨gs, hs, hsplit, rfl, rfl⟩ := List.map_eq_append_iff.1 h
  obtain ⟨hcs, hgs, hhs⟩ := splitBy_eq_append hsplit
  exact ⟨gs.flatten, hs.flatten, hcs, by rw [runs, hgs], by rw [runs, hhs]⟩

theorem word_mem_of_mem_joinChains {ls : List Lexeme} {cs : List Char}
    (h : word cs ∈ joinChains ls) : word cs ∈ ls := by
  fun_induction joinChains ls with
  | case1 => exact h
  | case2 d ls ih =>
    obtain h | h := List.mem_append.1 h
    · exact absurd h (word_notMem_chainNumbers _ _)
    · rw [cons_eq_chain_append]
      exact List.mem_append_right _ (ih h)
  | case3 w ls ih =>
    obtain h | h := List.mem_cons.1 h
    · rw [h]
      exact List.mem_cons_self
    · exact List.mem_cons_of_mem _ (ih h)
  | case4 op ls ih =>
    obtain h | h := List.mem_cons.1 h
    · cases h
    · exact List.mem_cons_of_mem _ (ih h)

/-- The characters for a part, where `f` may have a text for its place. -/
def spell (f : Lexeme → Option (List Char)) (l : Lexeme) : List Char :=
  match f l with
  | some ds => '(' :: (ds ++ [')'])
  | none => l.chars

def expand (f : Lexeme → Option (List Char)) (l : Lexeme) : List Lexeme :=
  match f l with
  | some ds => mark .openParen :: (ofChars ds ++ [mark .closeParen])
  | none => [l]

section

variable {f : Lexeme → Option (List Char)} (hf : ∀ l, (f l).isSome → ∃ w, l = word w)

include hf in
theorem spell_number (ds : List Char) : spell f (number ds) = ds := by
  rw [spell]
  cases h : f (number ds) with
  | none => rfl
  | some es =>
    obtain ⟨w, hw⟩ := hf _ (Option.isSome_of_eq_some h)
    cases hw

include hf in
theorem spell_mark (op : Operator) : spell f (mark op) = op.symbol.toList := by
  rw [spell]
  cases h : f (mark op) with
  | none => rfl
  | some es =>
    obtain ⟨w, hw⟩ := hf _ (Option.isSome_of_eq_some h)
    cases hw

theorem spell_expand_of_none {ls : List Lexeme} (h : ∀ l ∈ ls, f l = none) :
    ls.flatMap (spell f) = ls.flatMap chars ∧ ls.flatMap (expand f) = ls := by
  induction ls with
  | nil => exact ⟨rfl, rfl⟩
  | cons l ls ih =>
    obtain ⟨hl, hls⟩ := List.forall_mem_cons.1 h
    obtain ⟨hspell, hexpand⟩ := ih hls
    simp [spell, expand, hl, hspell, hexpand]

include hf in
theorem ofChars_spell_of_none {cs : List Char} (h : ∀ l ∈ runs cs, f l = none) :
    ofChars ((runs cs).flatMap (spell f)) = (ofChars cs).flatMap (expand f) := by
  have hnone : ∀ l ∈ ofChars cs, f l = none := by
    intro l hl
    cases hfl : f l with
    | none => rfl
    | some ds =>
      obtain ⟨w, rfl⟩ := hf l (Option.isSome_of_eq_some hfl)
      rw [h _ (word_mem_of_mem_joinChains hl)] at hfl
      cases hfl
  rw [(spell_expand_of_none h).1, (spell_expand_of_none hnone).2, flatMap_chars_runs]

include hf in
theorem ofChars_spell_runs {cs : List Char} {ls ms : List Lexeme} (hruns : runs cs = ls ++ ms)
    (hls : ∀ l ∈ ls, f l = none) :
    ofChars ((runs cs).flatMap (spell f)) = (ofChars cs).flatMap (expand f) := by
  induction ms generalizing cs ls with
  | nil =>
    apply ofChars_spell_of_none hf
    rwa [hruns, List.append_nil]
  | cons m ms ih =>
    cases hm : f m with
    | none =>
      have hnext : runs cs = (ls ++ [m]) ++ ms := by simpa using hruns
      exact ih hnext (List.forall_mem_append.2 ⟨hls, List.forall_mem_singleton.2 hm⟩)
    | some ds =>
      obtain ⟨w, rfl⟩ := hf m (Option.isSome_of_eq_some hm)
      -- the text is cut at the word, which the parenthesis does in its turn
      obtain ⟨cs₁, cs₂, rfl, rfl, hword⟩ := exists_runs_of_append hruns
      rw [← List.singleton_append] at hword
      obtain ⟨cs₃, cs₄, rfl, -, rfl⟩ := exists_runs_of_append hword
      have hbefore := ofChars_spell_of_none hf hls
      have hbehind : ofChars ((runs cs₄).flatMap (spell f)) = (ofChars cs₄).flatMap (expand f) :=
        ih (List.nil_append _).symm (by simp)
      have hspell : (runs (cs₁ ++ (cs₃ ++ cs₄))).flatMap (spell f) =
          (runs cs₁).flatMap (spell f) ++ '(' :: (ds ++ ')' :: (runs cs₄).flatMap (spell f)) := by
        simp [hruns, spell, hm]
      have hparts : ofChars (cs₁ ++ (cs₃ ++ cs₄)) = ofChars cs₁ ++ word w :: ofChars cs₄ := by
        rw [ofChars, hruns, joinChains_append_cons (breaks_word w), ofChars, ofChars]
      rw [hspell, ofChars_append_group, hbefore, hbehind, hparts]
      simp [expand, hm]

include hf in
/-- With words replaced by texts in parentheses, a text is read as its parts are, with the parts of
those texts in the place of the words. -/
theorem ofChars_spell (cs : List Char) :
    ofChars ((ofChars cs).flatMap (spell f)) = (ofChars cs).flatMap (expand f) := by
  have hpoint : ∀ ds es, spell f (number (ds ++ '.' :: es)) =
      spell f (number ds) ++ (spell f (mark .point) ++ spell f (number es)) := by
    intro ds es
    rw [spell_number hf, spell_number hf, spell_number hf, spell_mark hf]
    rfl
  have hruns : ofChars ((runs cs).flatMap (spell f)) = (ofChars cs).flatMap (expand f) :=
    ofChars_spell_runs hf (List.nil_append (runs cs)).symm (by simp)
  rwa [← flatMap_joinChains hpoint] at hruns

end

end Formula.Lexeme
