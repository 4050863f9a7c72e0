import Formula.Proofs.Grammar.Completeness
import Formula.Proofs.Lexeme.Replacement
import Formula.Proofs.Printing

namespace Formula

theorem Derives.atom_mem_between {op : Operator} {ks ks' : List Token.Kind} {l r : Expr}
    {a : Atom} (hl : a ∈ l.leaves → .ofAtom a ∈ ks) (hr : a ∈ r.leaves → .ofAtom a ∈ ks')
    (ha : a ∈ (Expr.binary op l r).leaves) : .ofAtom a ∈ ks ++ .operator op :: ks' := by
  obtain ha | ha := List.mem_append.1 ha
  · exact List.mem_append_left _ (hl ha)
  · exact List.mem_append_right _ (List.mem_cons_of_mem _ (hr ha))

theorem Derives.atom_mem {m : Level} {ks : List Token.Kind} {e : Expr} {a : Atom}
    (h : Derives m ks e) (ha : a ∈ e.leaves) : .ofAtom a ∈ ks := by
  induction h with
  | sumOfProduct h ih => exact ih ha
  | productOfPower h ih => exact ih ha
  | powerOfFactor h ih => exact ih ha
  | factorOfPrimary h ih => exact ih ha
  | sum hop hl hr ihl ihr => exact atom_mem_between ihl ihr ha
  | product hop hl hr ihl ihr => exact atom_mem_between ihl ihr ha
  | power hop hl hr ihl ihr => exact atom_mem_between ihl ihr ha
  | before hop h ih => exact List.mem_cons_of_mem _ (ih ha)
  | after h ih => exact List.mem_append_left _ (ih ha)
  | number n =>
    cases List.mem_singleton.1 ha
    exact List.mem_singleton_self _
  | symbol s =>
    cases List.mem_singleton.1 ha
    exact List.mem_singleton_self _
  | group h ih => exact List.mem_cons_of_mem _ (List.mem_append_left _ (ih ha))

theorem Operator.notMem_of_ofWord? {s : String} (h : ofWord? s = none) :
    s ∉ ["sin", "cos", "tan", "sqrt"] := by
  rw [ofWord?, List.find?_eq_none] at h
  intro hs
  simp only [List.mem_cons, List.not_mem_nil, or_false] at hs
  obtain rfl | rfl | rfl | rfl := hs
  · exact h .sin (by decide) (by decide)
  · exact h .cos (by decide) (by decide)
  · exact h .tan (by decide) (by decide)
  · exact h .sqrt (by decide) (by decide)

namespace Lexeme

theorem flatMap_chars_ofChars (cs : List Char) : (ofChars cs).flatMap chars = cs := by
  rw [ofChars, flatMap_joinChains (fun _ _ => rfl), flatMap_chars_runs]

theorem isBlank_of_mem_chars {source : String} {l : Lexeme} (hl : l ∈ ofSource source) {c : Char}
    (hc : c ∈ l.chars) : Text.isBlank c = false := by
  have hvisible : c ∈ visible source := by
    rw [← flatMap_chars_ofChars (visible source)]
    exact List.mem_flatMap.2 ⟨l, hl, hc⟩
  simpa using (List.mem_filter.1 hvisible).2

theorem eq_word_of_kind {l : Lexeme} {s : Symbol} (h : l.kind = .symbol s) :
    ∃ cs, l = word cs ∧ s = Symbol.ofName (String.ofList cs) ∧
      Operator.ofWord? (String.ofList cs) = none := by
  cases l with
  | number cs => cases h
  | mark op => cases h
  | word cs =>
    rw [kind] at h
    split at h
    · cases h
    · next hword =>
      cases h
      exact ⟨cs, rfl, rfl, hword⟩

theorem written_of_mem {source : String} {a : Atom}
    (h : .ofAtom a ∈ (ofSource source).map kind) : a.Written := by
  obtain ⟨l, hl, hkind⟩ := List.mem_map.1 h
  have hpart := isPart_of_mem_ofChars hl
  cases a with
  | number n =>
    have hvalue := Token.readFloat?_of_number_mem h
    obtain ⟨cs, rfl, rfl⟩ := eq_number_of_kind hkind
    refine ⟨?_, hvalue⟩
    rw [numberOf, String.toList_ofList]
    exact hpart
  | symbol s =>
    obtain ⟨cs, rfl, rfl, hword⟩ := eq_word_of_kind hkind
    obtain ⟨hne, hletters⟩ := hpart
    refine ⟨rfl, by simpa [Symbol.ofName] using hne, Operator.notMem_of_ofWord? hword, ?_⟩
    rw [Symbol.ofName, String.toList_ofList]
    intro c hc
    exact ⟨isBlank_of_mem_chars hl hc, hletters c hc⟩

end Lexeme

namespace Expr

theorem written_of_parse {source : String} {e : Expr} (h : parse source = .ok e) :
    ∀ a ∈ e.leaves, a.Written :=
  fun _ ha => Lexeme.written_of_mem ((derives_parts_of_parse h).atom_mem ha)

end Expr

end Formula
