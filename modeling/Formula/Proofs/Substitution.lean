import Formula.Proofs.Built
import Formula.Proofs.Grammar.Completeness
import Formula.Proofs.Lexeme.Replacement
import Formula.Proofs.Spans

namespace Formula

namespace Token

namespace Kind

def name? (k : Kind) : Option String := k.atom?.bind Atom.name?

/-- The characters for a token, where `σ` may have a source for its name. -/
def written (σ : String → Option String) (k : Kind) : List Char :=
  match k.name?.bind σ with
  | some source => '(' :: (Lexeme.visible source ++ [')'])
  | none => k.text.toList

def expand (κ : String → Option (List Kind)) (k : Kind) : List Kind :=
  match k.name?.bind κ with
  | some ks => .operator .openParen :: (ks ++ [.operator .closeParen])
  | none => [k]

end Kind

/-- Replaces the characters of every token for whose name `σ` has a source by that source in
parentheses. The first of the characters has the place `start`. -/
def splice (σ : String → Option String) : (start : Nat) → List Char → List Token → List Char
  | _, cs, [] => cs
  | start, cs, t :: ts =>
    match t.kind.name?.bind σ with
    | some source => cs.take (t.span.start - start) ++ '(' :: (source.toList ++
        ')' :: splice σ t.span.stop (cs.drop (t.span.stop - start)) ts)
    | none => splice σ start cs ts

def spliceSource (σ : String → Option String) (source : String) : Except Error String := do
  let ts ← ofSource source
  return String.ofList (splice σ 0 source.toList ts)

open Text

/-- The text that is spliced, without its blanks. The characters in `front` are behind the last
token that was replaced. -/
theorem withoutBlanks_splice (σ : String → Option String) {start : Nat} {front cs : List Char}
    {ts : List Token} (h : Covers (start + front.length) cs ts) :
    withoutBlanks (splice σ start (front ++ cs) ts) =
      withoutBlanks front ++ (ts.map kind).flatMap (Kind.written σ) := by
  induction ts generalizing start front cs with
  | nil =>
    rw [splice, withoutBlanks_append, withoutBlanks_of_blank h]
    rfl
  | cons t ts ih =>
    obtain ⟨gap, inner, rest, rfl, hgap, -, hspan, htext, hrest⟩ := h
    have hcut : front ++ (gap ++ (inner ++ rest)) = front ++ (gap ++ inner) ++ rest := by simp
    rw [splice, List.map_cons, List.flatMap_cons, Kind.written]
    cases hsource : t.kind.name?.bind σ with
    | none =>
      -- the token stays, and its characters wait in front for the next one that is replaced
      have hcovers : Covers (start + (front ++ (gap ++ inner)).length) rest ts := by
        simpa [Nat.add_assoc] using hrest
      have hkept : t.kind.text.toList = withoutBlanks inner := htext
      simp only
      rw [hcut, ih hcovers, withoutBlanks_append, withoutBlanks_append, withoutBlanks_of_blank hgap,
        List.nil_append, hkept, List.append_assoc]
    | some source =>
      have htake : (front ++ (gap ++ (inner ++ rest))).take (t.span.start - start) =
          front ++ gap := by
        have hlength : t.span.start - start = (front ++ gap).length := by
          rw [hspan, List.length_append]
          simp only
          omega
        rw [hlength, ← List.append_assoc, List.take_left]
      have hdrop : (front ++ (gap ++ (inner ++ rest))).drop (t.span.stop - start) = rest := by
        have hlength : t.span.stop - start = (front ++ (gap ++ inner)).length := by
          rw [hspan]
          simp only [List.length_append]
          omega
        rw [hlength, hcut, List.drop_left]
      have hcovers : Covers (t.span.stop + ([] : List Char).length) rest ts := by
        simpa [hspan] using hrest
      have hbehind : withoutBlanks (splice σ t.span.stop rest ts) =
          (ts.map kind).flatMap (Kind.written σ) := ih hcovers
      have hopen : isBlank '(' = false := rfl
      have hclose : isBlank ')' = false := rfl
      simp only [htake, hdrop]
      rw [withoutBlanks_append, withoutBlanks_append, withoutBlanks_of_blank hgap, ← hbehind]
      simp [withoutBlanks, hopen, hclose, Lexeme.visible]

end Token

namespace Lexeme

open Token

theorem text_kind (l : Lexeme) : l.kind.text.toList = l.chars := by
  cases l with
  | number cs => exact String.toList_ofList
  | mark op => rfl
  | word cs =>
    rw [kind, chars]
    cases hw : Operator.ofWord? (String.ofList cs) with
    | none => exact String.toList_ofList
    | some op =>
      have hsymbol : op.symbol = String.ofList cs := by simpa using List.find?_some hw
      simp only [Kind.text, hsymbol, String.toList_ofList]

def text? (σ : String → Option String) (l : Lexeme) : Option (List Char) :=
  (l.kind.name?.bind σ).map visible

theorem eq_word_of_text? {σ : String → Option String} {l : Lexeme} (h : (l.text? σ).isSome) :
    ∃ w, l = word w := by
  cases l with
  | number cs => cases h
  | mark op => cases h
  | word cs => exact ⟨cs, rfl⟩

theorem written_kind (σ : String → Option String) (l : Lexeme) :
    Kind.written σ l.kind = spell (text? σ) l := by
  rw [Kind.written, spell, text?]
  cases l.kind.name?.bind σ with
  | none => exact text_kind l
  | some source => rfl

def kinds? (σ : String → Option String) (name : String) : Option (List Token.Kind) :=
  (σ name).map fun source => (ofSource source).map kind

theorem expand_kind (σ : String → Option String) (l : Lexeme) :
    Kind.expand (kinds? σ) l.kind = (expand (text? σ) l).map kind := by
  have hkinds : l.kind.name?.bind (kinds? σ) =
      (l.kind.name?.bind σ).map fun source => (ofSource source).map kind :=
    Option.map_bind.symm
  rw [Kind.expand, hkinds, expand, text?]
  cases l.kind.name?.bind σ with
  | none => rfl
  | some source => simp [ofSource, kind]

end Lexeme

namespace Token

/-- Every source can be spliced into, and the tokens that come of it are those of the source, with
those of other sources, in parentheses, in the place of names. -/
theorem exists_spliceSource (σ : String → Option String) (source : String) :
    ∃ text, spliceSource σ source = .ok text ∧ (Lexeme.ofSource text).map Lexeme.kind =
      ((Lexeme.ofSource source).map Lexeme.kind).flatMap (Kind.expand (Lexeme.kinds? σ)) := by
  obtain ⟨ts, hts, hkinds⟩ := exists_ofSource source
  refine ⟨String.ofList (splice σ 0 source.toList ts), by rw [spliceSource, hts]; rfl, ?_⟩
  have hcovers : Covers (0 + ([] : List Char).length) source.toList ts := covers_ofSource hts
  have hvisible : Lexeme.visible (String.ofList (splice σ 0 source.toList ts)) =
      (Lexeme.ofSource source).flatMap (Lexeme.spell (Lexeme.text? σ)) := by
    rw [Lexeme.visible, String.toList_ofList, ← funext (Lexeme.written_kind σ),
      ← List.flatMap_map, ← hkinds]
    exact withoutBlanks_splice σ hcovers
  rw [Lexeme.ofSource, hvisible, Lexeme.ofSource,
    Lexeme.ofChars_spell (fun _ => Lexeme.eq_word_of_text?), List.map_flatMap, List.flatMap_map]
  simp only [Lexeme.expand_kind]

end Token

namespace Expr

/-- The tree with others in the place of the symbols for whose names `τ` has one. -/
def substitute (τ : String → Option Expr) : Expr → Expr
  | atom a => (a.name?.bind τ).getD (atom a)
  | unary op e => unary op (e.substitute τ)
  | binary op l r => binary op (l.substitute τ) (r.substitute τ)

end Expr

theorem Derives.substitute {κ : String → Option (List Token.Kind)} {τ : String → Option Expr}
    (hτ : ∀ name, Option.Rel (Derives .sum) (κ name) (τ name)) {l : Level} {ks : List Token.Kind}
    {e : Expr} (h : Derives l ks e) :
    Derives l (ks.flatMap (Token.Kind.expand κ)) (e.substitute τ) := by
  induction h with
  | sumOfProduct h ih => exact ih.sumOfProduct
  | sum hop hl hr ihl ihr =>
    rw [List.flatMap_append]
    exact .sum hop ihl ihr
  | productOfPower h ih => exact ih.productOfPower
  | product hop hl hr ihl ihr =>
    rw [List.flatMap_append]
    exact .product hop ihl ihr
  | powerOfFactor h ih => exact ih.powerOfFactor
  | power hop hl hr ihl ihr =>
    rw [List.flatMap_append]
    exact .power hop ihl ihr
  | factorOfPrimary h ih => exact ih.factorOfPrimary
  | before hop h ih => exact .before hop ih
  | after h ih =>
    rw [List.flatMap_append]
    exact .after ih
  | number n => exact .number n
  | symbol s =>
    have hname : (Token.Kind.symbol s).name? = some s.name := rfl
    rw [List.flatMap_singleton, Token.Kind.expand, hname, Option.bind_some, Expr.substitute,
      Atom.name?, Option.bind_some]
    -- a tree in parentheses is a primary, as the symbol was
    have hs := hτ s.name
    generalize κ s.name = ks?, τ s.name = e? at hs ⊢
    cases hs with
    | none => exact .symbol s
    | some hu => exact .group hu
  | group h ih =>
    rw [List.flatMap_cons, List.flatMap_append]
    exact .group ih

namespace Expr

theorem mem_symbols_iff {e : Expr} {name : String} :
    name ∈ e.symbols ↔ ∃ a ∈ e.leaves, a.name? = some name := by
  rw [symbols, List.mem_eraseDups, List.mem_filterMap]

/-- A symbol that is bound to the value of a tree counts as much as the tree does. -/
theorem value_bind_symbol {m : Bindings} {τ : String → Option Expr} {s : Symbol}
    (hτ : ∀ u, τ s.name = some u → u.WellFormed)
    (hm : m[s.name]? = (τ s.name).bind (·.value.toOption)) :
    ((atom (.symbol s)).bind m).1.value = ((atom (.symbol s)).substitute τ).value := by
  rw [bind, substitute, Atom.name?, Option.bind_some, hm]
  cases hs : τ s.name with
  | none => rfl
  | some u =>
    obtain ⟨x, hx⟩ := exists_value (hτ u hs)
    rw [Option.bind_some, hx, Option.getD_some, hx]
    rfl

theorem value_bind_eq_substitute {m : Bindings} {τ : String → Option Expr} {e : Expr}
    (hτ : ∀ name u, τ name = some u → u.WellFormed)
    (hm : ∀ a ∈ e.leaves, ∀ name, a.name? = some name →
      m[name]? = (τ name).bind (·.value.toOption)) :
    (e.bind m).1.value = (e.substitute τ).value := by
  induction e with
  | atom a =>
    cases a with
    | number n => rfl
    | symbol s =>
      exact value_bind_symbol (hτ s.name) (hm (.symbol s) List.mem_cons_self s.name rfl)
  | unary op e ih => exact value_unary_congr (ih hm)
  | binary op l r ihl ihr =>
    obtain ⟨hl, hr⟩ := List.forall_mem_append.1 hm
    exact value_binary_congr (ihl hl) (ihr hr)

def readings (σ : String → Option String) (name : String) : Option Expr :=
  (σ name).bind fun source => (parse source).toOption

theorem derives_readings {σ : String → Option String}
    (hσ : ∀ name source, σ name = some source → ∃ u, parse source = .ok u) (name : String) :
    Option.Rel (Derives .sum) (Lexeme.kinds? σ name) (readings σ name) := by
  rw [Lexeme.kinds?, readings]
  cases h : σ name with
  | none => exact .none
  | some source =>
    obtain ⟨u, hu⟩ := hσ name source h
    rw [Option.bind_some, hu]
    exact .some (derives_parts_of_parse hu)

theorem wellFormed_of_readings {σ : String → Option String} {name : String} {u : Expr}
    (h : readings σ name = some u) : u.WellFormed := by
  obtain ⟨source, -, hu⟩ := Option.bind_eq_some_iff.1 h
  cases hparse : parse source with
  | error err =>
    rw [hparse] at hu
    cases hu
  | ok e =>
    rw [hparse] at hu
    cases hu
    exact wellFormed_of_parse hparse

/-- With sources in parentheses in the place of symbols, a source is still read, as the tree in
which the trees of those sources are in the place of the symbols. Its value is that of the tree in
which the symbols are bound to the values of those trees. Symbols that the trees have themselves
are bound in neither. -/
theorem parse_spliceSource {σ : String → Option String} {source : String} {e : Expr}
    (h : parse source = .ok e)
    (hσ : ∀ name r, σ name = some r → ∃ u, parse r = .ok u) :
    ∃ text, Token.spliceSource σ source = .ok text ∧
      parse text = .ok (e.substitute (readings σ)) ∧
      ∀ m : Bindings,
        (∀ name ∈ e.symbols, m[name]? = (readings σ name).bind (·.value.toOption)) →
        ∃ x, (e.substitute (readings σ)).value = .ok x ∧ (e.bind m).1.value = .ok x := by
  obtain ⟨text, htext, hkinds⟩ := Token.exists_spliceSource σ source
  have hderives : Derives .sum ((Lexeme.ofSource text).map Lexeme.kind)
      (e.substitute (readings σ)) := by
    rw [hkinds]
    exact (derives_parts_of_parse h).substitute (derives_readings hσ)
  have hparse := parse_of_derives_parts hderives
  refine ⟨text, htext, hparse, ?_⟩
  intro m hm
  have hwf : ∀ name u, readings σ name = some u → u.WellFormed := fun _ _ => wellFormed_of_readings
  obtain ⟨x, hx⟩ := exists_value (wellFormed_of_parse hparse)
  refine ⟨x, hx, ?_⟩
  rw [value_bind_eq_substitute hwf, hx]
  intro a ha name hname
  exact hm name (mem_symbols_iff.2 ⟨a, ha, hname⟩)

theorem parse_spliceSource_quotient :
    let σ : String → Option String := fun name =>
      if name = "ab" then some "1 - 3" else if name = "y" then some "2+3" else none
    let m := Bindings.ofPairs [("ab", -2.0), ("y", 5.0)]
    ∃ e, parse "-a b*2.5/y" = .ok e ∧
      Token.spliceSource σ "-a b*2.5/y" = .ok "-(1 - 3)*2.5/(2+3)" ∧
      parse "-(1 - 3)*2.5/(2+3)" = .ok (e.substitute (readings σ)) ∧
      (e.substitute (readings σ)).value = .ok 1.0 ∧ (e.bind m).1.value = .ok 1.0 := by
  intro σ m
  let ab := atom (.symbol (.ofName "ab"))
  let y := atom (.symbol (.ofName "y"))
  let factor := atom (.number ⟨"2.5", 2.5⟩)
  let e := binary .divide (binary .times (unary .minus ab) factor) y
  have he : parse "-a b*2.5/y" = .ok e := by decide +kernel
  have hσ : ∀ name r, σ name = some r → ∃ u, parse r = .ok u := by
    intro name r hr
    simp only [σ] at hr
    split at hr
    · cases hr
      exact ⟨binary .minus (atom (.number ⟨"1", 1.0⟩)) (atom (.number ⟨"3", 3.0⟩)),
        by decide +kernel⟩
    split at hr
    · cases hr
      exact ⟨binary .plus (atom (.number ⟨"2", 2.0⟩)) (atom (.number ⟨"3", 3.0⟩)),
        by decide +kernel⟩
    · cases hr
  obtain ⟨text, htext, hparse, hvalues⟩ := parse_spliceSource he hσ
  have hsplice : Token.spliceSource σ "-a b*2.5/y" = .ok "-(1 - 3)*2.5/(2+3)" := by decide +kernel
  obtain rfl := Except.ok.inj (htext.symm.trans hsplice)
  obtain ⟨x, hx, hbind⟩ := hvalues m (by decide +kernel)
  have hvalue : (e.substitute (readings σ)).value = .ok 1.0 := by decide +kernel
  obtain rfl := Except.ok.inj (hx.symm.trans hvalue)
  exact ⟨e, he, hsplice, hparse, hvalue, hbind⟩

end Expr

end Formula
