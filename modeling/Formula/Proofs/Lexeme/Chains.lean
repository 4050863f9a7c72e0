import Formula.Proofs.Lexeme.Runs

namespace Formula.Lexeme

theorem glue_joinWords?_append {ls : List Lexeme} (h : ∀ cs, word cs ∉ ls) (ms : List Lexeme) :
    glue joinWords? (ls ++ ms) = ls ++ glue joinWords? ms := by
  induction ls with
  | nil => rfl
  | cons l ls ih =>
    have htail : ∀ cs, word cs ∉ ls := fun cs hc => h cs (List.mem_cons_of_mem l hc)
    rw [List.cons_append, glue_cons, ih htail]
    cases l with
    | word cs => exact absurd List.mem_cons_self (h cs)
    | number cs => exact attach_eq_cons (fun _ => rfl) _
    | mark op => exact attach_eq_cons (fun _ => rfl) _

theorem word_notMem_chainNumbers (ds : List (List Char)) (cs : List Char) :
    word cs ∉ chainNumbers ds := by
  rw [chainNumbers]
  induction pairs ds with
  | nil => simp
  | cons d rest ih =>
    cases rest with
    | nil => simp
    | cons e rest => simpa using ih

theorem eq_number_cons_of_glue {ls ms : List Lexeme} {ds : List Char}
    (h : glue joinWords? ls = number ds :: ms) : ∃ ms', ls = number ds :: ms' := by
  cases ls with
  | nil => cases h
  | cons l ls =>
    cases l with
    | number cs =>
      rw [glue_joinWords?_number] at h
      cases h
      exact ⟨ls, rfl⟩
    | word cs =>
      obtain ⟨es, ms', hword⟩ := exists_attach_joinWords? cs (glue joinWords? ls)
      rw [glue_cons, hword] at h
      cases h
    | mark op =>
      rw [glue_mark (fun _ => rfl)] at h
      cases h

theorem eq_mark_cons_of_glue {ls ms : List Lexeme} {op : Operator}
    (h : glue joinWords? ls = mark op :: ms) :
    ∃ ms', ls = mark op :: ms' ∧ glue joinWords? ms' = ms := by
  cases ls with
  | nil => cases h
  | cons l ls =>
    cases l with
    | number cs =>
      rw [glue_joinWords?_number] at h
      cases h
    | word cs =>
      obtain ⟨es, ms', hword⟩ := exists_attach_joinWords? cs (glue joinWords? ls)
      rw [glue_cons, hword] at h
      cases h
    | mark op' =>
      rw [glue_mark (fun _ => rfl)] at h
      cases h
      exact ⟨ls, rfl, rfl⟩

theorem chain_glue (ls : List Lexeme) :
    chain (glue joinWords? ls) = ((chain ls).1, glue joinWords? (chain ls).2) := by
  fun_induction chain ls with
  | case1 ds ls ih =>
    rw [glue_mark (fun _ => rfl), glue_joinWords?_number, chain, ih]
  | case2 ls h =>
    rw [chain]
    intro ds ms hglue
    obtain ⟨ns, hls, hns⟩ := eq_mark_cons_of_glue hglue
    obtain ⟨ms', hnumber⟩ := eq_number_cons_of_glue hns
    exact h ds ms' (hls.trans (congrArg _ hnumber))

theorem pairBackward_ne_nil {ds : List (List Char)} (h : ds ≠ []) : pairBackward ds ≠ [] := by
  fun_cases pairBackward ds with
  | case1 fraction whole ds => exact List.cons_ne_nil _ _
  | case2 ds h' => exact h

theorem exists_chainNumbers (d : List Char) (ds : List (List Char)) :
    ∃ n ls, chainNumbers (d :: ds) = number n :: ls := by
  have hne : pairs (d :: ds) ≠ [] := by
    rw [pairs, ne_eq, List.reverse_eq_nil_iff]
    exact pairBackward_ne_nil (by simp)
  obtain ⟨n, ns, hpairs⟩ := List.exists_cons_of_ne_nil hne
  rw [chainNumbers, hpairs]
  cases ns with
  | nil => exact ⟨n, [], rfl⟩
  | cons m ns => exact ⟨n, _, rfl⟩

theorem attach_joinChains (cs : List Char) (ls : List Lexeme) :
    attach joinWords? (word cs) (joinChains ls) = joinChains (attach joinWords? (word cs) ls) := by
  cases ls with
  | nil => simp only [joinChains, attach]
  | cons l ls =>
    cases l with
    | word ds => simp only [joinChains, attach, joinWords?]
    | mark op => simp only [joinChains, attach, joinWords?]
    | number ds =>
      obtain ⟨n, ms, h⟩ := exists_chainNumbers ds (chain ls).1
      simp only [joinChains, attach, joinWords?, h, List.cons_append]

/-- The points among digits do not matter to the letters. -/
theorem glue_joinWords?_joinChains (ls : List Lexeme) :
    glue joinWords? (joinChains ls) = joinChains (glue joinWords? ls) := by
  fun_induction joinChains ls with
  | case1 => simp only [glue, List.foldr_nil, joinChains]
  | case2 d ls ih =>
    rw [glue_joinWords?_append (word_notMem_chainNumbers _), ih, glue_joinWords?_number, joinChains,
      chain_glue]
  | case3 w ls ih => rw [glue_cons, ih, attach_joinChains, glue_cons]
  | case4 op ls ih =>
    rw [glue_mark (fun _ => rfl), ih, glue_mark (fun _ => rfl), joinChains]

/-- The pairing of the numbers around points, on parts from last to first. -/
def pairPoints : List Lexeme → List Lexeme
  | number fraction :: mark .point :: number whole :: ls =>
    number (whole ++ '.' :: fraction) :: pairPoints ls
  | l :: ls => l :: pairPoints ls
  | [] => []

theorem pairPoints_append {ls ms : List Lexeme}
    (h : ∀ pre f w ms', ls = pre ++ [number f, mark .point] → ms ≠ number w :: ms')
    (h' : ∀ pre f w ms', ls = pre ++ [number f] → ms ≠ mark .point :: number w :: ms') :
    pairPoints (ls ++ ms) = pairPoints ls ++ pairPoints ms := by
  fun_induction pairPoints ls with
  | case1 fraction whole ls ih =>
    rw [List.cons_append, List.cons_append, List.cons_append, pairPoints, List.cons_append]
    rw [ih]
    · intro pre f w ms' hls
      exact h (number fraction :: mark .point :: number whole :: pre) f w ms' (by rw [hls]; rfl)
    · intro pre f w ms' hls
      exact h' (number fraction :: mark .point :: number whole :: pre) f w ms' (by rw [hls]; rfl)
  | case2 l ls hl ih =>
    rw [List.cons_append, pairPoints, ih, List.cons_append]
    · intro pre f w ms' hls
      exact h (l :: pre) f w ms' (by rw [hls]; rfl)
    · intro pre f w ms' hls
      exact h' (l :: pre) f w ms' (by rw [hls]; rfl)
    · -- a pair across the cut would have its fraction, or that and the point, last in `ls`
      intro f w ns hf hns
      subst hf
      match ls, hns with
      | [], hns => exact h' [] f w ns rfl hns
      | [m], hns =>
        cases hns
        exact h [] f w ns rfl rfl
      | m :: n :: ls, hns =>
        cases hns
        exact hl f w ls rfl rfl
  | case3 => rfl

theorem pairPoints_intersperse (ds : List (List Char)) :
    pairPoints ((ds.map number).intersperse (mark .point)) =
      ((pairBackward ds).map number).intersperse (mark .point) := by
  fun_induction pairBackward ds with
  | case1 fraction whole ds ih =>
    cases ds with
    | nil => rfl
    | cons e ds =>
      obtain ⟨p, ps, hp⟩ := List.exists_cons_of_ne_nil (pairBackward_ne_nil (List.cons_ne_nil e ds))
      rw [hp] at ih ⊢
      simp only [List.map_cons, List.intersperse_cons_cons, pairPoints] at ih ⊢
      rw [ih]
  | case2 ds h =>
    match ds, h with
    | [], _ => rfl
    | [d], _ => rfl
    | fraction :: whole :: ds, h => exact absurd rfl (h fraction whole ds)

theorem intersperse_append_singleton {α : Type} (sep x : α) {l : List α} (h : l ≠ []) :
    (l ++ [x]).intersperse sep = l.intersperse sep ++ [sep, x] := by
  induction l with
  | nil => contradiction
  | cons y l ih =>
    cases l with
    | nil => rfl
    | cons z l => simpa using ih (List.cons_ne_nil z l)

theorem reverse_intersperse {α : Type} (sep : α) (l : List α) :
    (l.intersperse sep).reverse = l.reverse.intersperse sep := by
  induction l with
  | nil => rfl
  | cons x l ih =>
    cases l with
    | nil => rfl
    | cons y l =>
      have hne : (y :: l).reverse ≠ [] := by simp
      have hcons : (x :: y :: l).reverse = (y :: l).reverse ++ [x] := List.reverse_cons
      rw [hcons, intersperse_append_singleton sep x hne, ← ih, List.intersperse_cons_cons,
        List.reverse_cons, List.reverse_cons, List.append_assoc]
      rfl

theorem cons_eq_chain_append (d : List Char) (ls : List Lexeme) :
    number d :: ls =
      ((d :: (chain ls).1).map number).intersperse (mark .point) ++ (chain ls).2 := by
  fun_induction chain ls generalizing d with
  | case1 ds ls ih =>
    simp only [List.map_cons, List.intersperse_cons_cons, List.cons_append] at ih ⊢
    rw [← ih]
  | case2 ls h => rfl

theorem chain_rest (ls : List Lexeme) (ds : List Char) (ms : List Lexeme) :
    (chain ls).2 ≠ mark .point :: number ds :: ms := by
  fun_induction chain ls with
  | case1 ds ls ih => exact ih
  | case2 ls h => exact h ds ms

theorem pairPoints_append_singleton {l : Lexeme} (h : ∀ ds, l ≠ number ds) (ls : List Lexeme) :
    pairPoints (ls ++ [l]) = pairPoints ls ++ [l] := by
  rw [pairPoints_append]
  · cases l with
    | number ds => exact absurd rfl (h ds)
    | word cs => rfl
    | mark op => rfl
  · intro pre f w ms hls hl
    exact h w (List.cons.inj hl).1
  · intro pre f w ms hls hl
    cases hl

theorem intersperse_ne_mark_cons (ds : List (List Char)) (op : Operator) (ls : List Lexeme) :
    (ds.map number).intersperse (mark .point) ≠ mark op :: ls := by
  match ds with
  | [] => exact fun h => nomatch h
  | [d] => exact fun h => nomatch h
  | d :: e :: ds => exact fun h => nomatch h

/-- Pairing from the end is pairing in each chain. -/
theorem pairPoints_reverse (ls : List Lexeme) :
    (pairPoints ls.reverse).reverse = joinChains ls := by
  fun_induction joinChains ls with
  | case1 => rfl
  | case2 d ls ih =>
    -- a chain is taken in one go, since pairing it from the end depends on its length
    rw [cons_eq_chain_append d ls, List.reverse_append, reverse_intersperse, ← List.map_reverse,
      pairPoints_append, List.reverse_append, ih, pairPoints_intersperse, reverse_intersperse,
      ← List.map_reverse]
    · rfl
    · intro pre f w ms hrest hw
      have hpoint := congrArg List.reverse hrest
      simp only [List.reverse_reverse, List.reverse_append, List.reverse_cons, List.reverse_nil,
        List.nil_append, List.cons_append] at hpoint
      exact chain_rest ls f _ hpoint
    · intro pre f w ms hrest
      exact intersperse_ne_mark_cons _ _ _
  | case3 w ls ih =>
    rw [List.reverse_cons, pairPoints_append_singleton (fun _ => Lexeme.noConfusion),
      List.reverse_append, ih]
    rfl
  | case4 op ls ih =>
    rw [List.reverse_cons, pairPoints_append_singleton (fun _ => Lexeme.noConfusion),
      List.reverse_append, ih]
    rfl

theorem passes_eq_ofChars (cs : List Char) :
    glue joinWords? (pairPoints (glue joinNumbers? (cs.map single)).reverse).reverse =
      ofChars cs := by
  rw [pairPoints_reverse, glue_joinWords?_joinChains, glue_joinWords?_glue, ← runs_eq_glue, ofChars]

end Formula.Lexeme
