import Formula.Proofs.Lexing
import Formula.Proofs.Spans

namespace Formula

namespace Span

def slice (s : Span) (cs : List Char) : List Char := (cs.take s.stop).drop s.start

def Holds (s : Span) (i : Nat) : Prop := s.start ≤ i ∧ i < s.stop

theorem slice_append (front inner rest : List Char) :
    slice ⟨front.length, front.length + inner.length⟩ (front ++ (inner ++ rest)) = inner := by
  rw [slice, ← List.append_assoc, ← List.length_append, List.take_left, List.drop_left]

end Span

theorem Text.Solid.length_pos {cs : List Char} (h : Solid cs) : 0 < cs.length := by
  obtain ⟨⟨c, hc, -⟩, -⟩ := h
  exact List.length_pos_of_mem (List.mem_of_head? hc)

namespace Token

open Text

variable {start : Nat} {front cs : List Char} {ts : List Token}

/-- A token has its place in a text if its characters there are no blanks at either end, and without
those inside they are its text. -/
structure Placed (cs : List Char) (t : Token) : Prop where
  start_lt_stop : t.span.start < t.span.stop
  stop_le : t.span.stop ≤ cs.length
  solid : Solid (t.span.slice cs)
  text_eq : t.text.toList = withoutBlanks (t.span.slice cs)

theorem Covers.start_le (h : Covers start cs ts) : ∀ t ∈ ts, start ≤ t.span.start := by
  induction ts generalizing start cs with
  | nil => simp
  | cons t ts ih =>
    obtain ⟨gap, inner, rest, rfl, -, -, hspan, -, hrest⟩ := h
    refine List.forall_mem_cons.2 ⟨?_, ?_⟩
    · rw [hspan]
      exact Nat.le_add_right _ _
    · intro u hu
      have hstart := ih hrest u hu
      omega

theorem Covers.pairwise (h : Covers start cs ts) :
    ts.Pairwise fun t u => t.span.stop ≤ u.span.start := by
  induction ts generalizing start cs with
  | nil => exact .nil
  | cons t ts ih =>
    obtain ⟨gap, inner, rest, rfl, -, -, hspan, -, hrest⟩ := h
    refine List.pairwise_cons.2 ⟨?_, ih hrest⟩
    rw [hspan]
    exact hrest.start_le

theorem Covers.placed (h : Covers front.length cs ts) : ∀ t ∈ ts, Placed (front ++ cs) t := by
  induction ts generalizing front cs with
  | nil => simp
  | cons t ts ih =>
    obtain ⟨gap, inner, rest, rfl, -, hinner, hspan, htext, hrest⟩ := h
    have hslice : t.span.slice (front ++ (gap ++ (inner ++ rest))) = inner := by
      rw [hspan, ← List.append_assoc, ← List.length_append, Span.slice_append]
    have hpos := hinner.length_pos
    refine List.forall_mem_cons.2 ⟨⟨?_, ?_, ?_, ?_⟩, ?_⟩
    · rw [hspan]
      exact Nat.lt_add_of_pos_right hpos
    · rw [hspan]
      simp only [List.length_append]
      omega
    · rwa [hslice]
    · rw [hslice, htext]
    · have hlength : (front ++ (gap ++ inner)).length =
          front.length + gap.length + inner.length := by
        simp only [List.length_append]
        omega
      rw [← hlength] at hrest
      simpa using ih hrest

/-- Characters that no token covers are blanks. -/
theorem Covers.isBlank (h : Covers start cs ts) {i : Nat} {c : Char} (hc : cs[i]? = some c)
    (hi : ∀ t ∈ ts, ¬ t.span.Holds (start + i)) : isBlank c = true := by
  induction ts generalizing start cs i with
  | nil => exact h c (List.mem_of_getElem? hc)
  | cons t ts ih =>
    obtain ⟨gap, inner, rest, rfl, hgap, -, hspan, -, hrest⟩ := h
    obtain ⟨ht, hts⟩ := List.forall_mem_cons.1 hi
    rw [hspan, Span.Holds] at ht
    by_cases hlt : i < gap.length
    · rw [List.getElem?_append_left hlt] at hc
      exact hgap c (List.mem_of_getElem? hc)
    · have hge : gap.length + inner.length ≤ i := by
        simp only at ht
        omega
      apply ih hrest (i := i - gap.length - inner.length)
      · rwa [List.getElem?_append_right (by omega), List.getElem?_append_right (by omega)] at hc
      · have hsum : start + gap.length + inner.length + (i - gap.length - inner.length) =
            start + i := by omega
        rwa [hsum]

end Token

namespace TokenStream

open Text Token

/-- Reading a source into tokens loses nothing but white space. -/
theorem placed_ofSource (source : String) : ∃ (s : TokenStream) (ts : List Token),
    ofSource source = .ok s ∧
      s.tokens = ts ++ [⟨.finish, ⟨source.length, source.length⟩⟩] ∧
      (∀ t ∈ ts, t.kind ≠ .finish ∧ Placed source.toList t) ∧
      ts.Pairwise (fun t u => t.span.stop ≤ u.span.start) ∧
      ∀ i c, source.toList[i]? = some c → (∀ t ∈ ts, ¬ t.span.Holds i) → isBlank c = true := by
  obtain ⟨ts, hts, -⟩ := Token.exists_ofSource source
  have hcovers := covers_ofSource hts
  refine ⟨_, ts, ofSource_eq hts, rfl, ?_, hcovers.pairwise, ?_⟩
  · intro t ht
    have hplaced : Covers ([] : List Char).length source.toList ts := hcovers
    exact ⟨kind_ne_finish_of_mem hts ht, hplaced.placed t ht⟩
  · intro i c hc hi
    apply hcovers.isBlank hc
    rwa [Nat.zero_add]

theorem placed_ofSource_gaps :
    let source := " 1 .5  s in"
    let t : Token := ⟨.number ⟨"1.5", 1.5⟩, ⟨1, 5⟩⟩
    let u : Token := ⟨.operator .sin, ⟨7, 11⟩⟩
    ofSource source = .ok ⟨[t, u, Token.finish 11], 11⟩ ∧ Placed source.toList t ∧
      Placed source.toList u ∧ t.span.stop ≤ u.span.start ∧ source.toList[6]? = some ' ' ∧
      (∀ v ∈ [t, u], ¬ v.span.Holds 6) ∧ isBlank ' ' = true := by
  intro source t u
  have hsource : ofSource source = .ok ⟨[t, u, Token.finish 11], 11⟩ := by decide +kernel
  have hlength : source.length = 11 := by decide +kernel
  have hchar : source.toList[6]? = some ' ' := by decide +kernel
  have hgap : ∀ v ∈ [t, u], ¬ v.span.Holds 6 := by simp [t, u, Span.Holds]
  obtain ⟨s, ts, hs, htokens, hplaced, hpairwise, hblank⟩ := placed_ofSource source
  cases hsource.symm.trans hs
  rw [hlength] at htokens
  have hcancel : [t, u] ++ [Token.finish 11] = ts ++ [Token.finish 11] := htokens
  obtain rfl := List.append_cancel_right hcancel
  obtain ⟨-, ht⟩ := hplaced t (by simp)
  obtain ⟨-, hu⟩ := hplaced u (by simp)
  have hle : t.span.stop ≤ u.span.start := List.rel_of_pairwise_cons hpairwise (by simp)
  exact ⟨hsource, ht, hu, hle, hchar, hgap, hblank 6 ' ' hchar hgap⟩

end TokenStream

end Formula
