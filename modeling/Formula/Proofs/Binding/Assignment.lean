import Formula.Bindings
import Formula.Proofs.Trimming

namespace Formula

namespace Text

theorem takeWhile_ne_and_dropWhile_ne {c : Char} {cs : List Char} (h : c ∉ cs) (ds : List Char) :
    (cs ++ c :: ds).takeWhile (· != c) = cs ∧ (cs ++ c :: ds).dropWhile (· != c) = c :: ds := by
  have hfront : ∀ d ∈ cs, (d != c) = true := fun d hd => bne_iff_ne.2 fun heq => h (heq ▸ hd)
  have hstop : ∀ d ∈ (c :: ds).head?, (d != c) = false := by
    rintro d ⟨⟩
    exact bne_self_eq_false c
  exact ⟨takeWhile_append hfront hstop, dropWhile_append hfront hstop⟩

end Text

namespace Bindings

open Text

theorem readPair?_eq_some_iff {text : String} {p : String × Float} : readPair? text = some p ↔
    ∃ value x, text.toList.dropWhile (· != '=') = '=' :: value ∧
      trimChars (text.toList.takeWhile (· != '=')) ≠ [] ∧
      Decimal.readFloat? (String.ofList (trimChars value)) = some x ∧
      p = (String.ofList (trimChars (text.toList.takeWhile (· != '='))), x) := by
  rw [readPair?]
  cases hrest : text.toList.dropWhile (· != '=') with
  | nil =>
    apply iff_of_false
    · intro h
      cases h
    · rintro ⟨value, x, hcons, -⟩
      cases hcons
  | cons c value =>
    obtain rfl : c = '=' := by
      have hstop := head_dropWhile_eq_false (· != '=') text.toList c (by rw [hrest]; rfl)
      exact bne_eq_false_iff_eq.1 hstop
    dsimp only
    by_cases hname : trimChars (text.toList.takeWhile (· != '=')) = []
    · rw [hname, List.isEmpty_nil, if_pos rfl]
      apply iff_of_false
      · intro h
        cases h
      · rintro ⟨_, _, -, hne, -⟩
        exact hne rfl
    · rw [if_neg (by rwa [List.isEmpty_iff]), Option.map_eq_some_iff]
      constructor
      · rintro ⟨x, hread, rfl⟩
        exact ⟨value, x, rfl, hname, hread, rfl⟩
      · rintro ⟨_, x, ⟨⟩, -, hread, rfl⟩
        exact ⟨x, hread, rfl⟩

/-- The parts of a text `name=value`, with the number that the value is read as. -/
structure Assignment where
  name : Padded
  value : Padded
  number : Float
  name_ne_nil : name.core ≠ []
  sign_notMem_name : '=' ∉ name.core
  reads : Decimal.readFloat? (String.ofList value.core) = some number

namespace Assignment

def text (a : Assignment) : String := String.ofList (a.name.chars ++ '=' :: a.value.chars)

def pair (a : Assignment) : String × Float := (String.ofList a.name.core, a.number)

theorem sign_notMem_chars (a : Assignment) : '=' ∉ a.name.chars := by
  intro hmem
  rw [Padded.chars, List.mem_append, List.mem_append] at hmem
  obtain hmem | hmem | hmem := hmem
  · exact absurd (a.name.blank_before _ hmem) (by decide)
  · exact a.sign_notMem_name hmem
  · exact absurd (a.name.blank_behind _ hmem) (by decide)

theorem takeWhile_text (a : Assignment) : a.text.toList.takeWhile (· != '=') = a.name.chars := by
  rw [text, String.toList_ofList]
  exact (takeWhile_ne_and_dropWhile_ne a.sign_notMem_chars _).1

theorem dropWhile_text (a : Assignment) :
    a.text.toList.dropWhile (· != '=') = '=' :: a.value.chars := by
  rw [text, String.toList_ofList]
  exact (takeWhile_ne_and_dropWhile_ne a.sign_notMem_chars _).2

theorem readPair?_text (a : Assignment) : readPair? a.text = some a.pair := by
  rw [readPair?_eq_some_iff, takeWhile_text, dropWhile_text, Padded.trimChars_chars]
  refine ⟨a.value.chars, a.number, rfl, a.name_ne_nil, ?_, rfl⟩
  rw [Padded.trimChars_chars]
  exact a.reads

theorem exists_of_readPair? {text : String} {p : String × Float} (h : readPair? text = some p) :
    ∃ a : Assignment, a.text = text ∧ a.pair = p := by
  obtain ⟨value, x, hrest, hname, hread, rfl⟩ := readPair?_eq_some_iff.1 h
  have hsign : '=' ∉ trimChars (text.toList.takeWhile (· != '=')) := by
    intro hmem
    have htake := List.mem_takeWhile_imp (mem_of_mem_trimChars hmem)
    exact absurd htake (by decide)
  refine ⟨⟨.ofChars (text.toList.takeWhile (· != '=')), .ofChars value, x, hname, hsign, hread⟩, ?_,
    rfl⟩
  rw [Assignment.text, Padded.chars_ofChars, Padded.chars_ofChars, ← hrest,
    List.takeWhile_append_dropWhile, String.ofList_toList]

/-- Without a value there would be no telling where the white space before it ends, but the empty
text reads as no double. -/
theorem value_ne_nil (a : Assignment) : a.value.core ≠ [] := by
  intro hnil
  have h := a.reads
  rw [hnil] at h
  cases h

theorem text_injective : Function.Injective text := by
  intro a b h
  have hname : a.name = b.name := by
    apply Padded.eq_of_chars_eq a.name_ne_nil b.name_ne_nil
    rw [← takeWhile_text, h, takeWhile_text]
  have hvalue : a.value = b.value := by
    apply Padded.eq_of_chars_eq a.value_ne_nil b.value_ne_nil
    have hrest := a.dropWhile_text
    rw [h, dropWhile_text] at hrest
    exact (List.cons.inj hrest).2.symm
  have hnumber : a.number = b.number := by
    apply Option.some.inj
    rw [← a.reads, hvalue, b.reads]
  cases a
  cases b
  cases hname
  cases hvalue
  cases hnumber
  rfl

end Assignment

/-- A text is read as a name with its value exactly if these are the parts of it, with any white
space around them. Its parts are determined by it, and a text without such parts is not read. -/
theorem readPair?_iff_assignment (text : String) :
    (∀ name x, readPair? text = some (name, x) ↔
      ∃ a : Assignment, a.text = text ∧ a.pair = (name, x)) ∧
    (∀ a b : Assignment, a.text = text → b.text = text → a = b) ∧
    (readPair? text = none ↔ ∀ a : Assignment, a.text ≠ text) := by
  have hread {p : String × Float} :
      readPair? text = some p ↔ ∃ a : Assignment, a.text = text ∧ a.pair = p := by
    constructor
    · exact Assignment.exists_of_readPair?
    · rintro ⟨a, rfl, rfl⟩
      exact a.readPair?_text
  refine ⟨fun name x => hread, ?_, ?_⟩
  · intro a b ha hb
    exact Assignment.text_injective (ha.trans hb.symm)
  · rw [Option.eq_none_iff_forall_ne_some]
    constructor
    · intro hnone a ha
      exact hnone a.pair (hread.2 ⟨a, ha, rfl⟩)
    · intro hother p hp
      obtain ⟨a, ha, -⟩ := hread.1 hp
      exact hother a ha

theorem readPair?_iff_assignment_spaced :
    let text := "\u2003a b\u0085=\u00a0-1.5e1\t"
    ∃ a : Assignment, a.text = text ∧ a.name.behind = ['\u0085'] ∧ a.value.before = ['\u00a0'] ∧
      readPair? text = some ("a b", -15.0) ∧ (∀ b : Assignment, b.text = text → b = a) ∧
      ∀ b : Assignment, b.text ≠ "a b = = 1" := by
  intro text
  have hblank {cs : List Char} (h : cs.all isBlank = true) : Blank cs := List.all_eq_true.1 h
  have hname : Trimmed "a b".toList := trimmed_trimChars "a b".toList
  have hvalue : Trimmed "-1.5e1".toList := trimmed_trimChars "-1.5e1".toList
  have hreads : Decimal.readFloat? (String.ofList "-1.5e1".toList) = some (-15.0) := by
    decide +kernel
  let name : Padded := ⟨['\u2003'], "a b".toList, ['\u0085'], hblank rfl, hname, hblank rfl⟩
  let value : Padded := ⟨['\u00a0'], "-1.5e1".toList, ['\t'], hblank rfl, hvalue, hblank rfl⟩
  have hne : name.core ≠ [] := List.cons_ne_nil 'a' _
  have hsign : '=' ∉ "a b".toList := by decide
  let a : Assignment := ⟨name, value, -15.0, hne, hsign, hreads⟩
  obtain ⟨hpair, hunique, -⟩ := readPair?_iff_assignment text
  have hread : readPair? text = some ("a b", -15.0) := (hpair "a b" (-15.0)).2 ⟨a, rfl, rfl⟩
  obtain ⟨-, -, hnone⟩ := readPair?_iff_assignment "a b = = 1"
  exact ⟨a, rfl, rfl, rfl, hread, fun b hb => hunique b a hb rfl, hnone.1 (by decide +kernel)⟩

end Bindings

end Formula
