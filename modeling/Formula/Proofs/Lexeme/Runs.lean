import Formula.Proofs.Lexeme

namespace Formula

namespace Operator

theorem ofMark?_eq_some_iff {c : Char} {op : Operator} :
    ofMark? c = some op ↔ op.symbol = String.singleton c := by
  constructor
  · intro h
    unfold ofMark? at h
    split at h <;> cases h <;> rfl
  · intro h
    have hc : op.symbol.toList = [c] := by rw [h, String.toList_singleton]
    cases op <;> simp [symbol] at hc <;> subst hc <;> rfl

theorem ofChar?_eq_ofMark? (c : Char) : ofChar? c = ofMark? c := by
  apply Option.ext
  intro op
  rw [ofChar?, ofSymbol?_eq_some_iff, ofMark?_eq_some_iff]

theorem ofMark?_of_isDigit {c : Char} (h : c.isDigit = true) : ofMark? c = none := by
  unfold ofMark?
  split <;> first | rfl | contradiction

end Operator

namespace Lexeme

def single (c : Char) : Lexeme := ofRun [c]

/-- Joins a part to the one on its right where `join` has a part for the two. -/
def attach (join : Lexeme → Lexeme → Option Lexeme) (l : Lexeme) : List Lexeme → List Lexeme
  | [] => [l]
  | m :: ls =>
    match join l m with
    | some n => n :: ls
    | none => l :: m :: ls

def glue (join : Lexeme → Lexeme → Option Lexeme) (ls : List Lexeme) : List Lexeme :=
  ls.foldr (attach join) []

def joinNumbers? : Lexeme → Lexeme → Option Lexeme
  | number cs, number ds => some (number (cs ++ ds))
  | _, _ => none

def joinWords? : Lexeme → Lexeme → Option Lexeme
  | word cs, word ds => some (word (cs ++ ds))
  | _, _ => none

def joinRuns? : Lexeme → Lexeme → Option Lexeme
  | number cs, number ds => some (number (cs ++ ds))
  | word cs, word ds => some (word (cs ++ ds))
  | _, _ => none

theorem glue_cons (join : Lexeme → Lexeme → Option Lexeme) (l : Lexeme) (ls : List Lexeme) :
    glue join (l :: ls) = attach join l (glue join ls) := rfl

theorem attach_eq_cons {join : Lexeme → Lexeme → Option Lexeme} {l : Lexeme}
    (h : ∀ m, join l m = none) (ls : List Lexeme) : attach join l ls = l :: ls := by
  cases ls with
  | nil => rfl
  | cons m ls => rw [attach, h m]

theorem glue_joinWords?_number (cs : List Char) (ls : List Lexeme) :
    glue joinWords? (number cs :: ls) = number cs :: glue joinWords? ls := by
  rw [glue_cons, attach_eq_cons (fun _ => rfl)]

theorem glue_mark {join : Lexeme → Lexeme → Option Lexeme} {op : Operator}
    (h : ∀ m, join (mark op) m = none) (ls : List Lexeme) :
    glue join (mark op :: ls) = mark op :: glue join ls := by
  rw [glue_cons, attach_eq_cons h]

theorem attach_joinRuns?_word (cs : List Char) (ls : List Lexeme) :
    attach joinRuns? (word cs) ls = attach joinWords? (word cs) ls := by
  cases ls with
  | nil => rfl
  | cons m ls => cases m <;> rfl

theorem exists_attach_joinWords? (cs : List Char) (ls : List Lexeme) :
    ∃ ds ms, attach joinWords? (word cs) ls = word ds :: ms := by
  cases ls with
  | nil => exact ⟨cs, [], rfl⟩
  | cons m ls =>
    cases m with
    | word ds => exact ⟨cs ++ ds, ls, rfl⟩
    | number ds => exact ⟨cs, number ds :: ls, rfl⟩
    | mark op => exact ⟨cs, mark op :: ls, rfl⟩

theorem attach_joinRuns?_number (cs : List Char) (ls : List Lexeme) :
    attach joinRuns? (number cs) (glue joinWords? ls) =
      glue joinWords? (attach joinNumbers? (number cs) ls) := by
  cases ls with
  | nil => rfl
  | cons m ls =>
    cases m with
    | number ds =>
      rw [glue_joinWords?_number, attach, attach, joinRuns?, joinNumbers?, glue_joinWords?_number]
    | word ds =>
      obtain ⟨es, ms, h⟩ := exists_attach_joinWords? ds (glue joinWords? ls)
      rw [glue_cons, h, attach, attach, joinRuns?, joinNumbers?, glue_joinWords?_number,
        glue_cons, h]
      all_goals simp
    | mark op =>
      rw [glue_mark (fun _ => rfl), attach, attach, joinRuns?, joinNumbers?,
        glue_joinWords?_number, glue_mark (fun _ => rfl)]
      all_goals simp

/-- Numbers and then words are joined as both at once. -/
theorem glue_joinWords?_glue (ls : List Lexeme) :
    glue joinWords? (glue joinNumbers? ls) = glue joinRuns? ls := by
  induction ls with
  | nil => rfl
  | cons l ls ih =>
    rw [glue_cons joinRuns?, ← ih, glue_cons joinNumbers?]
    cases l with
    | number cs => rw [attach_joinRuns?_number]
    | word cs =>
      rw [attach_eq_cons (fun _ => rfl), glue_cons, attach_joinRuns?_word]
    | mark op =>
      rw [attach_eq_cons (fun _ => rfl), attach_eq_cons (fun _ => rfl), glue_mark (fun _ => rfl)]

theorem splitBy_cons_of_rel {α : Type} {r : α → α → Bool} {a b : α} {l g : List α}
    {gs : List (List α)} (h : (b :: l).splitBy r = g :: gs) (hr : r a b = true) :
    (a :: b :: l).splitBy r = (a :: g) :: gs := by
  rw [List.splitBy_eq_iff] at h ⊢
  obtain ⟨hflat, hnil, hchain, hbound⟩ := h
  cases g with
  | nil => simp at hnil
  | cons c g =>
    obtain ⟨rfl, hl⟩ := List.cons.inj hflat
    refine ⟨by simp [hl], by simpa using hnil, ?_, ?_⟩
    · intro m hm
      obtain rfl | hm := List.mem_cons.1 hm
      · exact List.isChain_cons_cons.2 ⟨hr, hchain _ List.mem_cons_self⟩
      · exact hchain m (List.mem_cons_of_mem _ hm)
    · rw [List.isChain_cons] at hbound ⊢
      refine ⟨?_, hbound.2⟩
      intro y hy
      obtain ⟨hg, hne, hlast⟩ := hbound.1 y hy
      exact ⟨List.cons_ne_nil _ _, hne, by rwa [List.getLast_cons hg]⟩

theorem splitBy_cons_of_not_rel {α : Type} {r : α → α → Bool} {a b : α} (l : List α)
    (hr : r a b = false) : (a :: b :: l).splitBy r = [a] :: (b :: l).splitBy r := by
  have h := List.splitBy_append_cons (r := r) (l := [a]) (a := b) l (by simpa using hr)
  exact h

theorem digit_or_letter_or_mark (c : Char) :
    c.isDigit = true ∨ isLetter c = true ∨ ∃ op, Operator.ofMark? c = some op := by
  cases hd : c.isDigit with
  | true => exact Or.inl rfl
  | false =>
    cases hm : Operator.ofMark? c with
    | none => exact Or.inr (Or.inl (by rw [isLetter, hd, hm]; rfl))
    | some op => exact Or.inr (Or.inr ⟨op, rfl⟩)

theorem ofRun_digit {c : Char} (h : c.isDigit = true) (cs : List Char) :
    ofRun (c :: cs) = number (c :: cs) := by
  simp only [ofRun, Operator.ofMark?_of_isDigit h, h, if_true]

theorem ofRun_letter {c : Char} (h : isLetter c = true) (cs : List Char) :
    ofRun (c :: cs) = word (c :: cs) := by
  simp only [isLetter, Bool.and_eq_true, Bool.not_eq_true', Option.isNone_iff_eq_none] at h
  simp only [ofRun, h.1, h.2, Bool.false_eq_true, if_false]

theorem ofRun_mark {c : Char} {op : Operator} (h : Operator.ofMark? c = some op) (cs : List Char) :
    ofRun (c :: cs) = mark op := by
  simp only [ofRun, h]

theorem joinRuns?_of_sameRun {c d : Char} (h : sameRun c d = true) (cs : List Char) :
    joinRuns? (single c) (ofRun (d :: cs)) = some (ofRun (c :: d :: cs)) := by
  rw [sameRun, Bool.or_eq_true, Bool.and_eq_true, Bool.and_eq_true] at h
  obtain ⟨hc, hd⟩ | ⟨hc, hd⟩ := h
  · rw [single, ofRun_digit hc, ofRun_digit hd, ofRun_digit hc]
    rfl
  · rw [single, ofRun_letter hc, ofRun_letter hd, ofRun_letter hc]
    rfl

theorem joinRuns?_of_not_sameRun {c d : Char} (h : sameRun c d = false) (cs : List Char) :
    joinRuns? (single c) (ofRun (d :: cs)) = none := by
  rw [sameRun, Bool.or_eq_false_iff] at h
  obtain hc | hc | ⟨op, hc⟩ := digit_or_letter_or_mark c
  · obtain hd | hd | ⟨op', hd⟩ := digit_or_letter_or_mark d
    · simp [hc, hd] at h
    · rw [single, ofRun_digit hc, ofRun_letter hd]
      rfl
    · rw [single, ofRun_digit hc, ofRun_mark hd]
      rfl
  · obtain hd | hd | ⟨op', hd⟩ := digit_or_letter_or_mark d
    · rw [single, ofRun_letter hc, ofRun_digit hd]
      rfl
    · simp [hc, hd] at h
    · rw [single, ofRun_letter hc, ofRun_mark hd]
      rfl
  · rw [single, ofRun_mark hc]
    rfl

theorem runs_cons (c : Char) (cs : List Char) :
    runs (c :: cs) = attach joinRuns? (single c) (runs cs) := by
  cases cs with
  | nil => rfl
  | cons d cs =>
    obtain ⟨g, gs, hsplit⟩ : ∃ g gs, (d :: cs).splitBy sameRun = g :: gs :=
      List.exists_cons_of_ne_nil (List.splitBy_ne_nil.2 (List.cons_ne_nil d cs))
    have hne : g ≠ [] := List.ne_nil_of_mem_splitBy (hsplit ▸ List.mem_cons_self)
    obtain ⟨e, g, rfl⟩ := List.exists_cons_of_ne_nil hne
    have hhead : e = d := by
      have h := List.flatten_splitBy sameRun (d :: cs)
      rw [hsplit] at h
      simpa using congrArg List.head? h
    subst hhead
    cases hr : sameRun c e with
    | true =>
      rw [runs, runs, splitBy_cons_of_rel hsplit hr, hsplit, List.map_cons, List.map_cons, attach,
        joinRuns?_of_sameRun hr]
    | false =>
      rw [runs, runs, splitBy_cons_of_not_rel cs hr, hsplit, List.map_cons, List.map_cons, attach,
        joinRuns?_of_not_sameRun hr]
      rfl

theorem runs_eq_glue (cs : List Char) : runs cs = glue joinRuns? (cs.map single) := by
  induction cs with
  | nil => rfl
  | cons c cs ih => rw [runs_cons, List.map_cons, glue_cons, ih]

end Lexeme

end Formula
