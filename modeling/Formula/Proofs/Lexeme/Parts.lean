import Formula.Proofs.Lexeme.Chains

namespace Formula.Lexeme

def IsRun : Lexeme → Prop
  | number cs => Decimal.IsDigits cs
  | word cs => cs ≠ [] ∧ ∀ c ∈ cs, isLetter c = true
  | mark _ => True

/-- A part of a source is a run, or two runs of digits with a point between them. -/
def IsPart : Lexeme → Prop
  | number cs => Decimal.IsDecimal cs
  | word cs => cs ≠ [] ∧ ∀ c ∈ cs, isLetter c = true
  | mark _ => True

theorem isRun_single (c : Char) : IsRun (single c) := by
  obtain h | h | ⟨op, h⟩ := digit_or_letter_or_mark c
  · rw [single, ofRun_digit h]
    exact ⟨List.cons_ne_nil c [], by simpa using h⟩
  · rw [single, ofRun_letter h]
    exact ⟨List.cons_ne_nil c [], by simpa using h⟩
  · rw [single, ofRun_mark h]
    trivial

theorem isRun_of_joinRuns? {l m n : Lexeme} (h : joinRuns? l m = some n) (hl : IsRun l)
    (hm : IsRun m) : IsRun n := by
  cases l with
  | number cs =>
    cases m with
    | number ds =>
      cases h
      exact Decimal.isDigits_append hl hm
    | word ds => cases h
    | mark op => cases h
  | word cs =>
    cases m with
    | word ds =>
      cases h
      refine ⟨List.append_ne_nil_of_left_ne_nil hl.1 ds, ?_⟩
      intro c hc
      obtain hc | hc := List.mem_append.1 hc
      · exact hl.2 c hc
      · exact hm.2 c hc
    | number ds => cases h
    | mark op => cases h
  | mark op => cases h

theorem joinRuns?_of_joinNumbers? {l m n : Lexeme} (h : joinNumbers? l m = some n) :
    joinRuns? l m = some n := by
  cases l <;> cases m <;> first | exact h | cases h

theorem forall_mem_glue {join : Lexeme → Lexeme → Option Lexeme} {P : Lexeme → Prop}
    (hjoin : ∀ l m n, join l m = some n → P l → P m → P n) {ls : List Lexeme}
    (h : ∀ l ∈ ls, P l) : ∀ l ∈ glue join ls, P l := by
  induction ls with
  | nil => simp [glue]
  | cons l ls ih =>
    have hl := h l List.mem_cons_self
    have hls := ih fun m hm => h m (List.mem_cons_of_mem l hm)
    rw [glue_cons]
    cases hglue : glue join ls with
    | nil =>
      intro m hm
      obtain rfl := List.mem_singleton.1 hm
      exact hl
    | cons n ns =>
      rw [hglue] at hls
      rw [attach]
      cases hj : join l n with
      | none =>
        intro m hm
        obtain rfl | hm := List.mem_cons.1 hm
        · exact hl
        · exact hls m hm
      | some k =>
        intro m hm
        obtain rfl | hm := List.mem_cons.1 hm
        · exact hjoin l n _ hj hl (hls n List.mem_cons_self)
        · exact hls m (List.mem_cons_of_mem n hm)

theorem isRun_of_mem_single {cs : List Char} {l : Lexeme} (h : l ∈ cs.map single) : IsRun l := by
  obtain ⟨c, -, rfl⟩ := List.mem_map.1 h
  exact isRun_single c

theorem isRun_of_mem_runs {cs : List Char} {l : Lexeme} (h : l ∈ runs cs) : IsRun l := by
  rw [runs_eq_glue] at h
  exact forall_mem_glue (fun _ _ _ => isRun_of_joinRuns?) (fun _ => isRun_of_mem_single) l h

theorem isDecimal_of_mem_pairBackward {ds : List (List Char)} {cs : List Char}
    (h : ∀ d ∈ ds, Decimal.IsDigits d) (hcs : cs ∈ pairBackward ds) : Decimal.IsDecimal cs := by
  fun_induction pairBackward ds with
  | case1 fraction whole ds ih =>
    obtain rfl | hcs := List.mem_cons.1 hcs
    · exact .fraction (h whole (by simp)) (h fraction (by simp))
    · exact ih (fun d hd => h d (by simp [hd])) hcs
  | case2 ds _ => exact .whole (h cs hcs)

theorem isPart_of_mem_chainNumbers {ds : List (List Char)} {l : Lexeme}
    (h : ∀ d ∈ ds, Decimal.IsDigits d) (hl : l ∈ chainNumbers ds) : IsPart l := by
  have hpairs : ∀ p ∈ pairs ds, Decimal.IsDecimal p := by
    intro p hp
    rw [pairs, List.mem_reverse] at hp
    exact isDecimal_of_mem_pairBackward (fun d hd => h d (List.mem_reverse.1 hd)) hp
  rw [chainNumbers] at hl
  generalize pairs ds = ps at hpairs hl
  induction ps with
  | nil => cases hl
  | cons p ps ih =>
    have hp := hpairs p List.mem_cons_self
    cases ps with
    | nil =>
      obtain rfl := List.mem_singleton.1 hl
      exact hp
    | cons q ps =>
      obtain rfl | hl := List.mem_cons.1 hl
      · exact hp
      obtain rfl | hl := List.mem_cons.1 hl
      · trivial
      · exact ih (fun r hr => hpairs r (List.mem_cons_of_mem p hr)) hl

theorem isRun_of_mem_chain {ls : List Lexeme} (h : ∀ l ∈ ls, IsRun l) :
    (∀ d ∈ (chain ls).1, Decimal.IsDigits d) ∧ ∀ l ∈ (chain ls).2, IsRun l := by
  fun_induction chain ls with
  | case1 ds ls ih =>
    obtain ⟨hdigits, hrest⟩ := ih fun l hl => h l (by simp [hl])
    refine ⟨?_, hrest⟩
    intro d hd
    obtain rfl | hd := List.mem_cons.1 hd
    · exact h (number d) (by simp)
    · exact hdigits d hd
  | case2 ls _ => exact ⟨by simp, h⟩

theorem isPart_of_mem_joinChains {ls : List Lexeme} {l : Lexeme} (h : ∀ l ∈ ls, IsRun l)
    (hl : l ∈ joinChains ls) : IsPart l := by
  fun_induction joinChains ls with
  | case1 => cases hl
  | case2 d ls ih =>
    obtain ⟨hdigits, hrest⟩ := isRun_of_mem_chain fun m hm => h m (List.mem_cons_of_mem _ hm)
    obtain hl | hl := List.mem_append.1 hl
    · refine isPart_of_mem_chainNumbers ?_ hl
      intro e he
      obtain rfl | he := List.mem_cons.1 he
      · exact h (number e) List.mem_cons_self
      · exact hdigits e he
    · exact ih hrest hl
  | case3 w ls ih =>
    obtain rfl | hl := List.mem_cons.1 hl
    · exact h (word w) List.mem_cons_self
    · exact ih (fun m hm => h m (List.mem_cons_of_mem _ hm)) hl
  | case4 op ls ih =>
    obtain rfl | hl := List.mem_cons.1 hl
    · trivial
    · exact ih (fun m hm => h m (List.mem_cons_of_mem _ hm)) hl

theorem isPart_of_mem_ofChars {cs : List Char} {l : Lexeme} (h : l ∈ ofChars cs) : IsPart l :=
  isPart_of_mem_joinChains (fun _ => isRun_of_mem_runs) h

end Formula.Lexeme
