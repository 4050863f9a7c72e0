import Formula.Token.Scan

namespace Formula

namespace Text

def withoutBlanks (cs : List Char) : List Char := cs.filter fun c => !isBlank c

theorem withoutBlanks_append (cs ds : List Char) :
    withoutBlanks (cs ++ ds) = withoutBlanks cs ++ withoutBlanks ds :=
  List.filter_append cs ds

def Blank (cs : List Char) : Prop := ∀ c ∈ cs, isBlank c = true

theorem withoutBlanks_of_blank {cs : List Char} (h : Blank cs) : withoutBlanks cs = [] := by
  rw [withoutBlanks, List.filter_eq_nil_iff]
  intro c hc
  simp [h c hc]

/-- There is a first character and a last one, and neither is white space. -/
def Solid (cs : List Char) : Prop :=
  (∃ c ∈ cs.head?, isBlank c = false) ∧ ∃ c ∈ cs.getLast?, isBlank c = false

theorem solid_singleton {c : Char} (h : isBlank c = false) : Solid [c] :=
  ⟨⟨c, rfl, h⟩, ⟨c, rfl, h⟩⟩

theorem Solid.append {cs ds : List Char} (h : Solid cs) (gap : List Char) (h' : Solid ds) :
    Solid (cs ++ (gap ++ ds)) := by
  refine ⟨?_, ?_⟩
  · obtain ⟨c, hc, hblank⟩ := h.1
    exact ⟨c, by rw [List.head?_append, Option.mem_def.1 hc]; rfl, hblank⟩
  · obtain ⟨c, hc, hblank⟩ := h'.2
    exact ⟨c, by rw [List.getLast?_append, List.getLast?_append, Option.mem_def.1 hc]; rfl, hblank⟩

end Text

namespace Token

open Text

/-- The tokens cover the characters `cs`, of which the first has the place `start`. -/
def Covers : Nat → List Char → List Token → Prop
  | _, cs, [] => Blank cs
  | start, cs, t :: ts => ∃ gap inner rest, cs = gap ++ (inner ++ rest) ∧ Blank gap ∧ Solid inner ∧
      t.span = ⟨start + gap.length, start + gap.length + inner.length⟩ ∧
      t.text.toList = withoutBlanks inner ∧ Covers (start + gap.length + inner.length) rest ts

variable {start : Nat} {cs : List Char} {t u v : Token} {ts us : List Token}

theorem Covers.cons_blank {c : Char} (hc : isBlank c = true) (h : Covers (start + 1) cs ts) :
    Covers start (c :: cs) ts := by
  cases ts with
  | nil => exact List.forall_mem_cons.2 ⟨hc, h⟩
  | cons t ts =>
    obtain ⟨gap, inner, rest, rfl, hgap, hinner, hspan, htext, hrest⟩ := h
    have hstart : start + (c :: gap).length = start + 1 + gap.length := by
      rw [List.length_cons]
      omega
    refine ⟨c :: gap, inner, rest, rfl, List.forall_mem_cons.2 ⟨hc, hgap⟩, hinner, ?_, htext, ?_⟩
    · rw [hstart, hspan]
    · rwa [hstart]

theorem Covers.stop_le_start (h : Covers start cs (t :: u :: ts)) :
    t.span.start ≤ t.span.stop ∧ t.span.stop ≤ u.span.start ∧ u.span.start ≤ u.span.stop := by
  obtain ⟨gap, inner, rest, -, -, -, hspan, -, gap', inner', rest', -, -, -, hspan', -⟩ := h
  rw [hspan, hspan']
  simp only
  omega

theorem Covers.join (h : Covers start cs (t :: u :: ts))
    (htext : v.text.toList = t.text.toList ++ u.text.toList)
    (hspan : v.span = ⟨t.span.start, u.span.stop⟩) : Covers start cs (v :: ts) := by
  obtain ⟨gap, inner, rest, rfl, hgap, hinner, ht, htt, gap', inner', rest', rfl, hgap', hinner',
    hu, hut, hrest⟩ := h
  have hlength : start + gap.length + (inner ++ (gap' ++ inner')).length =
      start + gap.length + inner.length + gap'.length + inner'.length := by
    simp only [List.length_append]
    omega
  refine ⟨gap, inner ++ (gap' ++ inner'), rest', by simp, hgap, hinner.append gap' hinner', ?_, ?_,
    ?_⟩
  · rw [hspan, ht, hu, hlength]
  · rw [htext, htt, hut, withoutBlanks_append, withoutBlanks_append, withoutBlanks_of_blank hgap',
      List.nil_append]
  · rwa [hlength]

theorem covers_append {ds : List Char} (h : Covers start cs ts)
    (h' : Covers (start + cs.length) ds us) : Covers start (cs ++ ds) (ts ++ us) := by
  induction ts generalizing start cs with
  | nil =>
    induction cs generalizing start with
    | nil => exact h'
    | cons c cs ih =>
      obtain ⟨hc, hcs⟩ := List.forall_mem_cons.1 h
      apply Covers.cons_blank hc
      apply ih hcs
      rwa [Nat.add_assoc, Nat.add_comm 1]
  | cons t ts ih =>
    obtain ⟨gap, inner, rest, rfl, hgap, hinner, hspan, htext, hrest⟩ := h
    refine ⟨gap, inner, rest ++ ds, by simp, hgap, hinner, hspan, htext, ih hrest ?_⟩
    simpa [Nat.add_assoc] using h'

theorem exists_covers_of_append (h : Covers start cs (ts ++ us)) :
    ∃ ds es, cs = ds ++ es ∧ Covers start ds ts ∧ Covers (start + ds.length) es us := by
  induction ts generalizing start cs with
  | nil => exact ⟨[], cs, rfl, by simp [Covers, Blank], h⟩
  | cons t ts ih =>
    obtain ⟨gap, inner, rest, rfl, hgap, hinner, hspan, htext, hrest⟩ := h
    obtain ⟨ds, es, rfl, hds, hes⟩ := ih hrest
    refine ⟨gap ++ (inner ++ ds), es, by simp, ⟨gap, inner, ds, rfl, hgap, hinner, hspan, htext,
      hds⟩, ?_⟩
    simpa [Nat.add_assoc] using hes

/-- Whatever the first tokens cover is covered by the others too. -/
def Refines (ts us : List Token) : Prop := ∀ start cs, Covers start cs ts → Covers start cs us

theorem Refines.refl (ts : List Token) : Refines ts ts := fun _ _ h => h

theorem Refines.append {ts' us' : List Token} (h : Refines ts us) (h' : Refines ts' us') :
    Refines (ts ++ ts') (us ++ us') := by
  intro start cs hcovers
  obtain ⟨ds, es, rfl, hds, hes⟩ := exists_covers_of_append hcovers
  exact covers_append (h _ _ hds) (h' _ _ hes)

theorem Refines.cons (t : Token) (h : Refines ts us) : Refines (t :: ts) (t :: us) := by
  rintro start cs ⟨gap, inner, rest, hcs, hgap, hinner, hspan, htext, hrest⟩
  exact ⟨gap, inner, rest, hcs, hgap, hinner, hspan, htext, h _ _ hrest⟩

theorem refines_cover (htext : v.text.toList = t.text.toList ++ u.text.toList)
    (hspan : v.span = t.span.cover u.span) (ts : List Token) :
    Refines (t :: u :: ts) (v :: ts) := by
  intro start cs h
  apply h.join htext
  obtain ⟨h₁, h₂, h₃⟩ := h.stop_le_start
  rw [hspan, Span.cover, Nat.min_eq_left (by omega), Nat.max_eq_right (by omega)]

theorem exists_of_bind_eq_ok {α β : Type} {x : Except Error α} {f : α → Except Error β} {b : β}
    (h : x >>= f = .ok b) : ∃ a, x = .ok a ∧ f a = .ok b := by
  cases x with
  | error err => cases h
  | ok a => exact ⟨a, rfl, h⟩

theorem eq_ok_of_mapError {α : Type} {x : Except Fault α} {f : Fault → Error} {a : α}
    (h : x.mapError f = .ok a) : x = .ok a := by
  cases x with
  | error fault => cases h
  | ok b =>
    cases h
    rfl

/-- Joining neighbours along a list keeps to what the tokens cover, if joining two of them does. -/
theorem refines_glue {join : Token → Token → Except Error (Option Token)}
    (hjoin : ∀ {t u v : Token}, join t u = .ok (some v) →
      v.text.toList = t.text.toList ++ u.text.toList ∧ v.span = t.span.cover u.span)
    (h : glue join ts = .ok us) : Refines ts us := by
  induction ts generalizing us with
  | nil =>
    cases h
    exact .refl _
  | cons t ts ih =>
    obtain ⟨us', hglue, h⟩ := exists_of_bind_eq_ok h
    have htail := (ih hglue).cons t
    cases us' with
    | nil =>
      cases h
      exact htail
    | cons u us' =>
      obtain ⟨v?, hv, h⟩ := exists_of_bind_eq_ok h
      cases v? with
      | none =>
        cases h
        exact htail
      | some v =>
        -- what is joined to the token is already a joined neighbour
        cases h
        obtain ⟨htext, hspan⟩ := hjoin hv
        intro start cs hcovers
        exact refines_cover htext hspan us' start cs (htail start cs hcovers)

theorem text_of_read {text : String} {n : Number} (h : Number.read text = .ok n) :
    n.text = text := by
  rw [Number.read] at h
  split at h <;> cases h
  rfl

theorem joinNumbers_eq_some (h : joinNumbers t u = .ok (some v)) :
    v.text.toList = t.text.toList ++ u.text.toList ∧ v.span = t.span.cover u.span := by
  rw [joinNumbers] at h
  split at h
  · next a b ht hu =>
    obtain ⟨n, hn, h⟩ := exists_of_bind_eq_ok h
    cases h
    have htext : n.text = a.text ++ b.text := text_of_read (eq_ok_of_mapError hn)
    simp [text, Kind.text, ht, hu, htext]
  · cases h

theorem joinSymbols_eq_some (h : joinSymbols t u = .ok (some v)) :
    v.text.toList = t.text.toList ++ u.text.toList ∧ v.span = t.span.cover u.span := by
  rw [joinSymbols] at h
  split at h
  · next a b ht hu =>
    cases h
    simp [text, Kind.text, ht, hu, Symbol.append]
  · cases h

theorem refines_point {p : Token} {a b n : Number} (ht : t.kind = .number a)
    (hp : p.kind = .operator .point) (hu : u.kind = .number b) (hn : a.withFraction b = .ok n) :
    Refines [t, p, u] [⟨.number n, t.span.cover u.span⟩] := by
  intro start cs h
  obtain ⟨-, hpoint, hpoint'⟩ := h.stop_le_start
  -- the number and the point on their own are no token, only their text matters
  let w : Token := ⟨.symbol (.ofName (a.text ++ ".")), ⟨t.span.start, p.span.stop⟩⟩
  have hw : Covers start cs [w, u] := by
    apply h.join _ rfl
    simp [w, text, Kind.text, ht, hp, Symbol.ofName, Operator.symbol]
  obtain ⟨hstart, hstop, hstop'⟩ := hw.stop_le_start
  apply hw.join
  · have htext : n.text = a.text ++ "." ++ b.text := text_of_read hn
    simp [w, text, Kind.text, hu, htext, Symbol.ofName]
  · simp only [w] at hstart hstop
    rw [Span.cover, Nat.min_eq_left (by omega), Nat.max_eq_right (by omega)]

theorem refines_joinPointsBackward (h : joinPointsBackward ts = .ok us) :
    Refines ts.reverse us.reverse := by
  fun_induction joinPointsBackward ts generalizing us with
  | case1 t p u ts fraction whole hu hp ht ih =>
    obtain ⟨n, hn, h⟩ := exists_of_bind_eq_ok h
    obtain ⟨rest, hrest, h⟩ := exists_of_bind_eq_ok h
    cases h
    have hread : whole.withFraction fraction = .ok n := eq_ok_of_mapError hn
    have happend := (ih hrest).append (refines_point hu hp ht hread)
    simpa using happend
  | case2 t p u ts hne ih =>
    obtain ⟨rest, hrest, h⟩ := exists_of_bind_eq_ok h
    cases h
    have happend := (ih hrest).append (Refines.refl [t])
    simpa using happend
  | case3 ts hts =>
    cases h
    exact .refl _

theorem refines_joinPoints (h : joinPoints ts = .ok us) : Refines ts us := by
  rw [joinPoints] at h
  cases hback : joinPointsBackward ts.reverse with
  | error err =>
    rw [hback] at h
    cases h
  | ok vs =>
    rw [hback] at h
    cases h
    have hrefines := refines_joinPointsBackward hback
    rwa [List.reverse_reverse] at hrefines

theorem text_nameOperator (t : Token) :
    (nameOperator t).text = t.text ∧ (nameOperator t).span = t.span := by
  rw [nameOperator]
  split
  · next s hs =>
    split
    · next op hop =>
      refine ⟨?_, rfl⟩
      rw [text, text, hs]
      exact Operator.ofSymbol?_eq_some_iff.1 hop
    · exact ⟨rfl, rfl⟩
  · exact ⟨rfl, rfl⟩

theorem refines_map_nameOperator (ts : List Token) : Refines ts (ts.map nameOperator) := by
  induction ts with
  | nil => exact .refl _
  | cons t ts ih =>
    rintro start cs ⟨gap, inner, rest, hcs, hgap, hinner, hspan, htext, hrest⟩
    obtain ⟨htext', hspan'⟩ := text_nameOperator t
    exact ⟨gap, inner, rest, hcs, hgap, hinner, hspan'.trans hspan, htext' ▸ htext, ih _ _ hrest⟩

theorem text_ofChar {c : Char} {k : Kind} (h : Kind.ofChar c = .ok k) :
    k.text = String.singleton c := by
  rw [Kind.ofChar] at h
  split at h
  · next op hop =>
    cases h
    exact Operator.ofSymbol?_eq_some_iff.1 hop
  · split at h
    · cases hread : Number.read (String.singleton c) with
      | error f =>
        rw [hread] at h
        cases h
      | ok n =>
        rw [hread] at h
        cases h
        exact text_of_read hread
    · cases h
      rfl

theorem covers_scan (h : scan start cs = .ok ts) : Covers start cs ts := by
  induction cs generalizing start ts with
  | nil =>
    cases h
    simp [Covers, Blank]
  | cons c cs ih =>
    rw [scan] at h
    cases hc : isBlank c with
    | true =>
      rw [if_pos hc] at h
      exact (ih h).cons_blank hc
    | false =>
      rw [if_neg (by simp [hc])] at h
      obtain ⟨k, hk, h⟩ := exists_of_bind_eq_ok h
      obtain ⟨rest, hrest, h⟩ := exists_of_bind_eq_ok h
      cases h
      have htext := text_ofChar (eq_ok_of_mapError hk)
      refine ⟨[], [c], cs, rfl, by simp [Blank], solid_singleton hc, rfl, ?_, ih hrest⟩
      simp [text, htext, withoutBlanks, hc]

theorem covers_ofSource {source : String} (h : ofSource source = .ok ts) :
    Covers 0 source.toList ts := by
  obtain ⟨scanned, hscan, h⟩ := exists_of_bind_eq_ok h
  obtain ⟨numbers, hnumbers, h⟩ := exists_of_bind_eq_ok h
  obtain ⟨decimals, hdecimals, h⟩ := exists_of_bind_eq_ok h
  obtain ⟨symbols, hsymbols, h⟩ := exists_of_bind_eq_ok h
  cases h
  have hcovers := covers_scan hscan
  have hnumbers := refines_glue joinNumbers_eq_some hnumbers _ _ hcovers
  have hdecimals := refines_joinPoints hdecimals _ _ hnumbers
  have hsymbols := refines_glue joinSymbols_eq_some hsymbols _ _ hdecimals
  exact refines_map_nameOperator symbols _ _ hsymbols

end Token

end Formula
