import Mathlib.Data.List.DropRight
import Formula.Proofs.Respacing
import Formula.Proofs.Spans.Placement
import Formula.Report

namespace Formula

namespace Span

theorem head?_slice {s : Span} (h : s.start < s.stop) (cs : List Char) :
    (s.slice cs).head? = cs[s.start]? := by
  rw [slice, List.head?_drop, List.getElem?_take_of_lt h]

end Span

namespace Token

open Text

theorem Placed.exists_first {cs : List Char} {t : Token} (h : Placed cs t) :
    ∃ c, cs[t.span.start]? = some c ∧ isBlank c = false := by
  obtain ⟨c, hc, hblank⟩ := h.solid.1
  rw [Span.head?_slice h.start_lt_stop] at hc
  exact ⟨c, hc, hblank⟩

theorem Placed.first_of_openParen {cs : List Char} {t : Token} (h : Placed cs t)
    (ht : t.kind = .operator .openParen) : cs[t.span.start]? = some '(' := by
  obtain ⟨c, hc, hblank⟩ := h.solid.1
  obtain ⟨rest, hrest⟩ : ∃ rest, t.span.slice cs = c :: rest := List.head?_eq_some_iff.1 hc
  have htext : ['('] = c :: withoutBlanks rest := by
    calc ['(']
        = t.text.toList := by rw [text, ht]; rfl
      _ = withoutBlanks (c :: rest) := by rw [h.text_eq, hrest]
      _ = c :: withoutBlanks rest := List.filter_cons_of_pos (by simp [hblank])
  rw [← Span.head?_slice h.start_lt_stop, hrest, (List.cons.inj htext).1]
  rfl

/-- The tokens that a source is read from: those with a place in it, and the end marker. -/
def Stands (source : String) (t : Token) : Prop :=
  t.kind ≠ .finish ∧ Placed source.toList t ∨ t = finish source.length

theorem stands_of_mem {source : String} {ts : List Token} (h : ofSource source = .ok ts) :
    ∀ t ∈ ts ++ [finish source.length], Stands source t := by
  intro t ht
  obtain ht | ht := List.mem_append.1 ht
  · have hcovers : Covers ([] : List Char).length source.toList ts := covers_ofSource h
    exact Or.inl ⟨kind_ne_finish_of_mem h ht, hcovers.placed t ht⟩
  · exact Or.inr (List.mem_singleton.1 ht)

theorem Stands.eq_finish {source : String} {t : Token} (h : Stands source t)
    (ht : t.kind = .finish) : t = finish source.length :=
  h.resolve_left fun hplaced => hplaced.1 ht

end Token

namespace Expr

open Text Token

/-- The reader blames no token but those that it is given, so that errors are about tokens of the
source. It is compared with itself, on tokens that are related to themselves only. -/
theorem error_of_parse {source : String} {err : Error} (h : parse source = .error err) :
    (∃ t, Stands source t ∧ err = t.unexpected) ∨
      ∃ t, Stands source t ∧ t.kind = .operator .openParen ∧
        err = unmatched t (finish source.length) := by
  obtain ⟨ts, hts, -⟩ := exists_ofSource source
  have hs := TokenStream.ofSource_eq hts
  let R : Token → Token → Prop := fun t u => t = u ∧ Stands source t
  have hkind : ∀ t u, R t u → t.kind = u.kind := fun t u htu => congrArg kind htu.1
  have htokens : List.Forall₂ R (ts ++ [finish source.length]) (ts ++ [finish source.length]) :=
    List.forall₂_same.2 fun t ht => ⟨rfl, stands_of_mem hts t ht⟩
  obtain ⟨r, hagrees⟩ : ∃ r, Agrees R (parse source) r :=
    ⟨_, parse_agrees hkind ⟨rfl, Or.inr rfl⟩ hs hs htokens⟩
  rw [h] at hagrees
  cases hagrees with
  | unexpected htu => exact Or.inl ⟨_, htu.2, rfl⟩
  | unmatched htu ht hcd hfinish =>
    rw [hcd.2.eq_finish hfinish]
    exact Or.inr ⟨_, htu.2, ht, rfl⟩

end Expr

open Text Token

/-- Where an error of the reader is: at a token, whose text it tells, behind the source, or at a
parenthesis that is still open at the end of the source. -/
inductive Located (source : String) : Error → Prop
  | token {text : String} {s : Span} (start_lt : s.start < s.stop)
      (stop_le : s.stop ≤ source.length)
      (text_eq : text.toList = withoutBlanks (s.slice source.toList))
      (first : ∃ c, source.toList[s.start]? = some c ∧ isBlank c = false) :
      Located source ⟨.unexpectedToken text, s⟩
  | finish : Located source ⟨.unexpectedToken "<Eof>", ⟨source.length, source.length⟩⟩
  | paren {start : Nat} (first : source.toList[start]? = some '(') :
      Located source ⟨.unmatchedParenthesis, ⟨start, source.length⟩⟩

variable {source : String} {err : Error}

theorem located_unexpected {t : Token} (h : Stands source t) : Located source t.unexpected := by
  obtain ⟨-, hplaced⟩ | rfl := h
  · exact .token hplaced.start_lt_stop (String.length_toList ▸ hplaced.stop_le) hplaced.text_eq
      hplaced.exists_first
  · exact .finish

theorem located_unmatched {t : Token} (h : Stands source t) (ht : t.kind = .operator .openParen) :
    Located source (Expr.unmatched t (finish source.length)) := by
  obtain ⟨-, hplaced⟩ | rfl := h
  · exact .paren (hplaced.first_of_openParen ht)
  · cases ht

theorem located_of_parse (h : Expr.parse source = .error err) : Located source err := by
  obtain ⟨t, ht, rfl⟩ | ⟨t, ht, hparen, rfl⟩ := Expr.error_of_parse h
  · exact located_unexpected ht
  · exact located_unmatched ht hparen

theorem lt_length_of_getElem? {i : Nat} {c : Char} (h : source.toList[i]? = some c) :
    i < source.length := by
  rw [← String.length_toList]
  exact (List.getElem?_eq_some_iff.1 h).1

/-- An error that is not behind the source takes in characters, the first of which is no blank. -/
theorem Located.starts_or_eq (h : Located source err) :
    (err.span.start < err.span.stop ∧ err.span.stop ≤ source.length ∧
      ∃ c, source.toList[err.span.start]? = some c ∧ isBlank c = false) ∨
    err.span = ⟨source.length, source.length⟩ := by
  cases h with
  | token start_lt stop_le text_eq first => exact Or.inl ⟨start_lt, stop_le, first⟩
  | finish => exact Or.inr rfl
  | paren first => exact Or.inl ⟨lt_length_of_getElem? first, Nat.le_refl _, '(', first, rfl⟩

theorem Located.span_le (h : Located source err) :
    err.span.start ≤ err.span.stop ∧ err.span.stop ≤ source.length := by
  obtain ⟨hstart, hstop, -⟩ | hspan := h.starts_or_eq
  · exact ⟨Nat.le_of_lt hstart, hstop⟩
  · rw [hspan]
    exact ⟨Nat.le_refl _, Nat.le_refl _⟩

namespace Report

def lastLineStart (text : String) : Nat := (text.toList.rdropWhile (· ≠ '\n')).length

theorem lastLineStart_eq_zero_iff {text : String} :
    lastLineStart text = 0 ↔ '\n' ∉ text.toList := by
  rw [lastLineStart, List.length_eq_zero_iff, List.rdropWhile_eq_nil_iff]
  grind

/-- The places in the echo of an input that belong to a stretch: those of its characters, or the one
behind the input for an empty stretch. -/
def Echoes (input : String) (s : Span) (place : Nat) : Prop :=
  (∃ i, s.Holds i ∧ place = "[Echo] ".length + i) ∨
    s.start = s.stop ∧ place = ("[Echo] " ++ input).length

/-- A line of marks, one for each place of a stretch. Its columns are places from `origin` on. -/
structure MarksFrom (origin : Nat) (marks input : String) (s : Span) : Prop where
  blank_or_mark : ∀ c ∈ marks.toList, c = ' ' ∨ c = '^'
  marked_iff : ∀ place,
    (∃ column, marks.toList[column]? = some '^' ∧ origin + column = place) ↔ Echoes input s place
  first : s.start < s.stop → ∃ c, input.toList[s.start]? = some c ∧ isBlank c = false

/-- A line of marks right below the echo of an input. What stands above its columns is the last line
of the echo. -/
def Underlines (marks input : String) (s : Span) : Prop :=
  MarksFrom (lastLineStart ("[Echo] " ++ input)) marks input s

theorem getElem?_replicate_append {m n i : Nat} :
    (List.replicate m ' ' ++ List.replicate n '^')[i]? = some '^' ↔ m ≤ i ∧ i < m + n := by
  rw [List.getElem?_append, List.length_replicate, List.getElem?_replicate, List.getElem?_replicate]
  grind

def marks (s : Span) : String := "       " ++ carets s

theorem toList_marks (s : Span) : (marks s).toList =
    List.replicate (7 + s.start) ' ' ++
      List.replicate (max s.stop (s.start + 1) - s.start) '^' := by
  simp only [marks, carets, String.toList_append, String.toList_ofList, List.replicate_add,
    List.append_assoc]
  rfl

theorem marksFrom_marks {input : String} {s : Span}
    (h : (s.start < s.stop ∧ s.stop ≤ input.length ∧
      ∃ c, input.toList[s.start]? = some c ∧ isBlank c = false) ∨
    s = ⟨input.length, input.length⟩) : MarksFrom 0 (marks s) input s := by
  have hecho : "[Echo] ".length = 7 := rfl
  refine ⟨?_, ?_, ?_⟩
  · intro c hc
    rw [toList_marks, List.mem_append, List.mem_replicate, List.mem_replicate] at hc
    exact hc.imp And.right And.right
  · intro place
    simp only [Nat.zero_add, exists_eq_right]
    rw [toList_marks, getElem?_replicate_append, Echoes, String.length_append, hecho]
    obtain ⟨hlt, -⟩ | rfl := h
    · constructor
      · intro hplace
        refine Or.inl ⟨place - 7, ⟨?_, ?_⟩, ?_⟩ <;> omega
      · rintro (⟨i, ⟨hstart, hstop⟩, rfl⟩ | ⟨heq, -⟩) <;> omega
    · constructor
      · intro hplace
        refine Or.inr ⟨rfl, ?_⟩
        simp only at hplace
        omega
      · rintro (⟨i, ⟨hstart, hstop⟩, rfl⟩ | ⟨-, rfl⟩) <;> simp only at * <;> omega
  · intro hlt
    obtain ⟨-, -, hfirst⟩ | rfl := h
    · exact hfirst
    · exact absurd hlt (Nat.lt_irrefl _)

/-- The columns of one line are places from no two origins: the last place would not be the last. -/
theorem MarksFrom.origin_eq_zero {origin : Nat} {marks input : String} {s : Span}
    (h : MarksFrom 0 marks input s) (h' : MarksFrom origin marks input s) (hle : s.start ≤ s.stop) :
    origin = 0 := by
  have hnext {place : Nat} (hplace : Echoes input s place) : Echoes input s (origin + place) := by
    obtain ⟨column, hmark, hcolumn⟩ := (h.marked_iff place).2 hplace
    exact (h'.marked_iff _).1 ⟨column, hmark, by omega⟩
  obtain hlt | heq := Nat.lt_or_eq_of_le hle
  · have hlast : Echoes input s ("[Echo] ".length + (s.stop - 1)) :=
      Or.inl ⟨s.stop - 1, ⟨by omega, by omega⟩, rfl⟩
    obtain ⟨i, hi, heq⟩ | ⟨heq, -⟩ := hnext hlast
    · have hstop : i < s.stop := hi.2
      omega
    · omega
  · have hbehind : Echoes input s ("[Echo] " ++ input).length := Or.inr ⟨heq, rfl⟩
    obtain ⟨i, ⟨hstart, hstop⟩, -⟩ | ⟨-, hsame⟩ := hnext hbehind
    · omega
    · omega

theorem underlines_iff {marks input : String} {s : Span} (h : MarksFrom 0 marks input s)
    (hle : s.start ≤ s.stop) : Underlines marks input s ↔ '\n' ∉ input.toList := by
  have hecho : '\n' ∉ ("[Echo] " ++ input).toList ↔ '\n' ∉ input.toList := by
    rw [String.toList_append, List.mem_append, not_or]
    exact and_iff_right (by decide)
  rw [← hecho, ← lastLineStart_eq_zero_iff]
  constructor
  · intro hunder
    exact h.origin_eq_zero hunder hle
  · intro hzero
    rwa [Underlines, hzero]

theorem ofError_eq (input : String) (e : Error) : ofError input e =
    "[Echo] " ++ input ++ "\n" ++ marks e.span ++ "\n[Error] " ++ e.message := by
  have hline : "\n       " = "\n" ++ "       " := rfl
  rw [ofError, hline, marks]
  simp only [String.append_assoc]

end Report

/-- Reading fails for no other reasons than a token without a place in the expression and a
parenthesis that stays open. The error tells where in the source that is. The marks in a report
stand for these characters when columns are counted from where the echo begins, so that they are
under the characters exactly if the source is on one line. -/
theorem parse_error_located (h : Expr.parse source = .error err) :
    Located source err ∧ err.span.start ≤ err.span.stop ∧ err.span.stop ≤ source.length ∧
      ∀ settings : Settings, ∃ marks : String,
        settings.report source (Expr.parse source) =
          "[Echo] " ++ source ++ "\n" ++ marks ++ "\n[Error] " ++ err.message ∧
        Report.MarksFrom 0 marks source err.span ∧
        (Report.Underlines marks source err.span ↔ '\n' ∉ source.toList) := by
  have hlocated := located_of_parse h
  obtain ⟨hstart, hstop⟩ := hlocated.span_le
  have hmarks := Report.marksFrom_marks hlocated.starts_or_eq
  refine ⟨hlocated, hstart, hstop, ?_⟩
  intro settings
  rw [h]
  exact ⟨_, Report.ofError_eq source err, hmarks, Report.underlines_iff hmarks hstart⟩

theorem parse_error_located_misuse :
    let source := "2 c os 3"
    let err : Error := ⟨.unexpectedToken "cos", ⟨2, 6⟩⟩
    Expr.parse source = .error err ∧ Located source err ∧
      err.span.start ≤ err.span.stop ∧ err.span.stop ≤ source.length ∧
      err.span.start < err.span.stop ∧
      (∃ c, source.toList[err.span.start]? = some c ∧ isBlank c = false) ∧
      ∃ marks, (Settings.mk ∅ false).report source (Expr.parse source) =
          "[Echo] " ++ source ++ "\n" ++ marks ++ "\n[Error] " ++ err.message ∧
        Report.Underlines marks source err.span := by
  intro source err
  have herr : Expr.parse source = .error err := by decide +kernel
  have hlt : err.span.start < err.span.stop := by decide
  have hline : '\n' ∉ source.toList := by decide
  obtain ⟨hlocated, hstart, hstop, hreport⟩ := parse_error_located herr
  obtain ⟨marks, hmarks, hfrom, hunder⟩ := hreport ⟨∅, false⟩
  exact ⟨herr, hlocated, hstart, hstop, hlt, hfrom.first hlt, marks, hmarks, hunder.2 hline⟩

/-- The parenthesis is first on its line, and the mark is in the column behind ten others. -/
theorem not_underlines_of_two_lines :
    let source := "2\n+)"
    let err : Error := ⟨.unexpectedToken ")", ⟨3, 4⟩⟩
    Expr.parse source = .error err ∧ ∀ (settings : Settings) (marks : String),
      settings.report source (Expr.parse source) =
        "[Echo] " ++ source ++ "\n" ++ marks ++ "\n[Error] " ++ err.message →
      marks = "          ^" ∧ ¬ Report.Underlines marks source err.span := by
  intro source err
  have herr : Expr.parse source = .error err := by decide +kernel
  refine ⟨herr, ?_⟩
  intro settings marks hreport
  rw [herr] at hreport
  have hmarks : marks = Report.marks err.span := by
    rw [Settings.report, Report.ofError_eq] at hreport
    have hlist := congrArg String.toList hreport
    simp only [String.toList_append, List.append_cancel_right_eq,
      List.append_cancel_left_eq] at hlist
    exact (String.toList_inj.1 hlist).symm
  have hlocated := located_of_parse herr
  refine ⟨hmarks.trans (by decide), ?_⟩
  rw [hmarks, Report.underlines_iff (Report.marksFrom_marks hlocated.starts_or_eq) (by decide)]
  decide

end Formula
