import Mathlib.Data.List.TakeWhile
import Formula.Proofs.Grammar.Leaves
import Formula.Proofs.Printing.RoundTrip

namespace Formula

namespace Text

/-- A class of characters tells where a text ends. -/
theorem append_cancel {p : Char → Bool} {cs cs' ds ds' : List Char} (hcs : ∀ c ∈ cs, p c = true)
    (hcs' : ∀ c ∈ cs', p c = true) (hds : ∀ c ∈ ds.head?, p c = false)
    (hds' : ∀ c ∈ ds'.head?, p c = false) (h : cs ++ ds = cs' ++ ds') : cs = cs' ∧ ds = ds' := by
  obtain rfl : cs = cs' := by
    calc cs
        = (cs ++ ds).takeWhile p := (takeWhile_append hcs hds).symm
      _ = (cs' ++ ds').takeWhile p := by rw [h]
      _ = cs' := takeWhile_append hcs' hds'
  exact ⟨rfl, List.append_cancel_left h⟩

def isDelimiter (c : Char) : Bool := c = ' ' || c = ')'

def Delimited (cs : List Char) : Prop := ∀ c ∈ cs.head?, isDelimiter c = true

theorem delimited_nil : Delimited [] := by
  intro c hc
  cases hc

theorem delimited_cons {c : Char} (hc : isDelimiter c = true) (cs : List Char) :
    Delimited (c :: cs) := by
  intro d hd
  cases hd
  exact hc

end Text

namespace Decimal

theorem IsDecimal.isDigit_or_eq_point {cs : List Char} (h : IsDecimal cs) :
    ∀ c ∈ cs, c.isDigit = true ∨ c = '.' := by
  intro c hc
  cases h with
  | whole h => exact Or.inl (h.2 c hc)
  | fraction h h' =>
    obtain hc | hc := List.mem_append.1 hc
    · exact Or.inl (h.2 c hc)
    obtain rfl | hc := List.mem_cons.1 hc
    · exact Or.inr rfl
    · exact Or.inl (h'.2 c hc)

end Decimal

namespace Atom

open Text

theorem Written.text_ne_nil {a : Atom} (h : a.Written) : a.text.toList ≠ [] := by
  cases a with
  | number n =>
    obtain ⟨c, cs, hcs, -⟩ := h.1.exists_digit
    rw [text, hcs]
    exact List.cons_ne_nil c cs
  | symbol s =>
    obtain ⟨-, hne, -⟩ := h
    exact fun hnil => hne (String.toList_inj.1 hnil)

theorem Written.isDelimiter_eq_false {a : Atom} (h : a.Written) :
    ∀ c ∈ a.text.toList, isDelimiter c = false ∧ c ≠ '(' := by
  intro c hc
  rw [isDelimiter, Bool.or_eq_false_iff, decide_eq_false_iff_not, decide_eq_false_iff_not]
  cases a with
  | number n =>
    obtain hdigit | rfl := h.1.isDigit_or_eq_point c hc
    · refine ⟨⟨?_, ?_⟩, ?_⟩
      all_goals
        rintro rfl
        exact absurd hdigit (by decide)
    · decide
  | symbol s =>
    obtain ⟨hblank, hletter⟩ := h.2.2.2 c hc
    refine ⟨⟨?_, ?_⟩, ?_⟩
    · rintro rfl
      cases hblank
    · rintro rfl
      cases hletter
    · rintro rfl
      cases hletter

theorem Written.eq_of_text_eq {a b : Atom} (ha : a.Written) (hb : b.Written)
    (h : a.text = b.text) : a = b := by
  have hclash : ∀ {n : Number} {s : Symbol}, (number n).Written → (symbol s).Written →
      n.text ≠ s.name := by
    -- a number has a digit in it, and a name has none
    intro n s hn hs htext
    obtain ⟨c, cs, hcs, hdigit⟩ := hn.1.exists_digit
    have hc : c ∈ s.name.toList := by
      rw [← htext, hcs]
      exact List.mem_cons_self
    have hletter := (hs.2.2.2 c hc).2
    rw [Lexeme.isLetter, hdigit] at hletter
    cases hletter
  cases a with
  | number n =>
    cases b with
    | number n' =>
      obtain ⟨text, value⟩ := n
      obtain ⟨text', value'⟩ := n'
      obtain rfl : text = text' := h
      have hvalue : some value = some value' := ha.2.symm.trans hb.2
      rw [Option.some.inj hvalue]
    | symbol s => exact absurd h (hclash ha hb)
  | symbol s =>
    cases b with
    | number n => exact absurd h.symm (hclash hb ha)
    | symbol s' =>
      obtain ⟨name, bound⟩ := s
      obtain ⟨name', bound'⟩ := s'
      obtain rfl : name = name' := h
      obtain rfl : bound = none := ha.1
      obtain rfl : bound' = none := hb.1
      rfl

theorem Written.append_cancel {a b : Atom} (ha : a.Written) (hb : b.Written) {cs ds : List Char}
    (hcs : Delimited cs) (hds : Delimited ds) (h : a.text.toList ++ cs = b.text.toList ++ ds) :
    a.text = b.text ∧ cs = ds := by
  have hchars : ∀ {a : Atom}, a.Written → ∀ c ∈ a.text.toList, (!isDelimiter c) = true := by
    intro a ha c hc
    rw [(ha.isDelimiter_eq_false c hc).1]
    rfl
  have hbehind : ∀ {es : List Char}, Delimited es → ∀ c ∈ es.head?, (!isDelimiter c) = false := by
    intro es hes c hc
    rw [hes c hc]
    rfl
  obtain ⟨htext, hrest⟩ :=
    Text.append_cancel (hchars ha) (hchars hb) (hbehind hcs) (hbehind hds) h
  exact ⟨String.toList_inj.1 htext, hrest⟩

theorem Written.append_ne_paren {a : Atom} (h : a.Written) (cs ds : List Char) :
    a.text.toList ++ cs ≠ '(' :: ds := by
  obtain ⟨c, rest, hrest⟩ := List.exists_cons_of_ne_nil h.text_ne_nil
  have hc : c ≠ '(' := (h.isDelimiter_eq_false c (by rw [hrest]; exact List.mem_cons_self)).2
  intro heq
  rw [hrest, List.cons_append, List.cons.injEq] at heq
  exact hc heq.1

end Atom

namespace Expr

open Text

theorem toList_render_unary (op : Operator) (e : Expr) (cs : List Char) :
    (unary op e).render.toList ++ cs =
      '(' :: (op.symbol.toList ++ ' ' :: (e.render.toList ++ ')' :: cs)) := by
  simp [render]

theorem toList_render_binary (op : Operator) (l r : Expr) (cs : List Char) :
    (binary op l r).render.toList ++ cs = '(' :: (op.symbol.toList ++
      ' ' :: (l.render.toList ++ ' ' :: (r.render.toList ++ ')' :: cs))) := by
  simp [render]

theorem symbol_append_cancel {op op' : Operator} {cs ds : List Char}
    (h : '(' :: (op.symbol.toList ++ ' ' :: cs) = '(' :: (op'.symbol.toList ++ ' ' :: ds)) :
    op = op' ∧ cs = ds := by
  have hvisible : ∀ op : Operator, ∀ c ∈ op.symbol.toList, (!isBlank c) = true := by
    intro op c hc
    rw [visible_symbol op c hc]
    rfl
  have hblank : ∀ es : List Char, ∀ c ∈ (' ' :: es).head?, (!isBlank c) = false := by
    intro es c hc
    cases hc
    rfl
  obtain ⟨hsymbol, hrest⟩ := append_cancel (hvisible op) (hvisible op') (hblank cs) (hblank ds)
    (List.cons.inj h).2
  exact ⟨Operator.symbol_injective (String.toList_inj.1 hsymbol), (List.cons.inj hrest).2⟩

/-- A tree can be read off the front of a text that starts with its rendering, whatever stands
behind it: the number of its operands is told by what stands behind each of them. -/
theorem render_append_cancel {e f : Expr} {cs ds : List Char} (he : ∀ a ∈ e.leaves, a.Written)
    (hf : ∀ a ∈ f.leaves, a.Written) (hcs : Delimited cs) (hds : Delimited ds)
    (h : e.render.toList ++ cs = f.render.toList ++ ds) : e = f ∧ cs = ds := by
  have hspace : ∀ es, Delimited (' ' :: es) := delimited_cons rfl
  have hclose : ∀ es, Delimited (')' :: es) := delimited_cons rfl
  induction e generalizing f cs ds with
  | atom a =>
    have ha := he a List.mem_cons_self
    cases f with
    | atom b =>
      have hb := hf b List.mem_cons_self
      obtain ⟨htext, hrest⟩ := ha.append_cancel hb hcs hds h
      exact ⟨congrArg atom (ha.eq_of_text_eq hb htext), hrest⟩
    | unary op' f =>
      rw [toList_render_unary] at h
      exact absurd h (ha.append_ne_paren _ _)
    | binary op' l' r' =>
      rw [toList_render_binary] at h
      exact absurd h (ha.append_ne_paren _ _)
  | unary op e ih =>
    rw [toList_render_unary] at h
    cases f with
    | atom b => exact absurd h.symm ((hf b List.mem_cons_self).append_ne_paren _ _)
    | unary op' f =>
      have hoperand : ∀ a ∈ f.leaves, a.Written := hf
      rw [toList_render_unary] at h
      obtain ⟨hop, hoperands⟩ := symbol_append_cancel h
      obtain ⟨hef, hrest⟩ := ih he hoperand (hclose cs) (hclose ds) hoperands
      exact ⟨congrArg₂ unary hop hef, (List.cons.inj hrest).2⟩
    | binary op' l' r' =>
      obtain ⟨hl', -⟩ := List.forall_mem_append.1 hf
      rw [toList_render_binary] at h
      -- behind the first operand a parenthesis closes on one side and a blank follows on the other
      obtain ⟨-, hoperands⟩ := symbol_append_cancel h
      obtain ⟨-, hrest⟩ := ih he hl' (hclose cs) (hspace _) hoperands
      cases hrest
  | binary op l r ihl ihr =>
    obtain ⟨hl, hr⟩ := List.forall_mem_append.1 he
    rw [toList_render_binary] at h
    cases f with
    | atom b => exact absurd h.symm ((hf b List.mem_cons_self).append_ne_paren _ _)
    | unary op' f =>
      have hoperand : ∀ a ∈ f.leaves, a.Written := hf
      rw [toList_render_unary] at h
      obtain ⟨-, hoperands⟩ := symbol_append_cancel h
      obtain ⟨-, hrest⟩ := ihl hl hoperand (hspace _) (hclose ds) hoperands
      cases hrest
    | binary op' l' r' =>
      obtain ⟨hl', hr'⟩ := List.forall_mem_append.1 hf
      rw [toList_render_binary] at h
      obtain ⟨rfl, hoperands⟩ := symbol_append_cancel h
      obtain ⟨rfl, hright⟩ := ihl hl hl' (hspace _) (hspace _) hoperands
      obtain ⟨rfl, hrest⟩ := ihr hr hr' (hclose cs) (hclose ds) (List.cons.inj hright).2
      exact ⟨rfl, (List.cons.inj hrest).2⟩

/-- Trees that were read from sources are equal if they are rendered alike. -/
theorem eq_of_render_eq {source source' : String} {e f : Expr} (he : parse source = .ok e)
    (hf : parse source' = .ok f) (h : e.render = f.render) : e = f := by
  have hlists : e.render.toList ++ [] = f.render.toList ++ [] := by rw [h]
  exact (render_append_cancel (written_of_parse he) (written_of_parse hf) delimited_nil
    delimited_nil hlists).1

theorem eq_of_render_eq_spaced : ∃ e f, parse "-a b+1.50!*2" = .ok e ∧
    parse "(- ab) + ((1.5 0)!) * 2" = .ok f ∧ e.render = f.render ∧ e = f := by
  let ab := atom (.symbol (.ofName "ab"))
  let factor := unary .factorial (atom (.number ⟨"1.50", 1.5⟩))
  let e := binary .plus (unary .minus ab) (binary .times factor (atom (.number ⟨"2", 2.0⟩)))
  have he : parse "-a b+1.50!*2" = .ok e := by decide +kernel
  have hf : parse "(- ab) + ((1.5 0)!) * 2" = .ok e := by decide +kernel
  exact ⟨e, e, he, hf, rfl, eq_of_render_eq he hf rfl⟩

end Expr

end Formula
