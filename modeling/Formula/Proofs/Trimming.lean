import Mathlib.Data.List.DropRight
import Formula.Proofs.DecimalText
import Formula.Proofs.Spans

namespace Formula.Text

def Trimmed (cs : List Char) : Prop :=
  (∀ c ∈ cs.head?, isBlank c = false) ∧ ∀ c ∈ cs.getLast?, isBlank c = false

variable {cs : List Char}

theorem trimChars_of_blank (h : Blank cs) : trimChars cs = [] := by
  rw [trimChars, List.dropWhile_eq_nil_iff.2 h]
  rfl

theorem head_dropWhile_eq_false (p : Char → Bool) (cs : List Char) :
    ∀ c ∈ (cs.dropWhile p).head?, p c = false := by
  intro c hc
  have h := List.head?_dropWhile_not p cs
  rw [Option.mem_def.1 hc] at h
  exact h

theorem trimmed_trimChars (cs : List Char) : Trimmed (trimChars cs) := by
  refine ⟨?_, ?_⟩
  · intro c hc
    obtain ⟨behind, hbehind⟩ := List.rdropWhile_prefix isBlank (cs.dropWhile isBlank)
    have hhead : (cs.dropWhile isBlank).head? = some c := by
      rw [← hbehind, List.head?_append]
      exact congrArg (Option.or · behind.head?) hc
    exact head_dropWhile_eq_false isBlank cs c hhead
  · rw [trimChars, List.getLast?_reverse]
    exact head_dropWhile_eq_false isBlank _

theorem Trimmed.head_append (h : Trimmed cs) (hne : cs ≠ []) (ds : List Char) :
    ∀ c ∈ (cs ++ ds).head?, isBlank c = false := by
  rw [List.head?_append_of_ne_nil cs hne]
  exact h.1

theorem Trimmed.reverse (h : Trimmed cs) : Trimmed cs.reverse := by
  rw [Trimmed, List.head?_reverse, List.getLast?_reverse]
  exact ⟨h.2, h.1⟩

theorem Blank.reverse (h : Blank cs) : Blank cs.reverse := fun c hc => h c (List.mem_reverse.1 hc)

/-- A text with the white space that stands before it and behind it. -/
@[ext]
structure Padded where
  before : List Char
  core : List Char
  behind : List Char
  blank_before : Blank before
  trimmed : Trimmed core
  blank_behind : Blank behind

namespace Padded

def chars (p : Padded) : List Char := p.before ++ (p.core ++ p.behind)

def ofChars (cs : List Char) : Padded where
  before := cs.takeWhile isBlank
  core := trimChars cs
  behind := (cs.dropWhile isBlank).rtakeWhile isBlank
  blank_before := fun _ hc => List.mem_takeWhile_imp hc
  trimmed := trimmed_trimChars cs
  blank_behind := fun _ hc => List.mem_rtakeWhile_imp hc

theorem chars_ofChars (cs : List Char) : (ofChars cs).chars = cs := by
  have hrest : trimChars cs ++ (cs.dropWhile isBlank).rtakeWhile isBlank = cs.dropWhile isBlank :=
    List.rdropWhile_append_rtakeWhile
  rw [chars, ofChars, hrest, List.takeWhile_append_dropWhile]

theorem ofChars_chars {p : Padded} (hne : p.core ≠ []) : ofChars p.chars = p := by
  have hhead := p.trimmed.head_append hne p.behind
  have hlast := p.trimmed.reverse.head_append (List.reverse_ne_nil_iff.2 hne) []
  rw [List.append_nil] at hlast
  have hrest : p.chars.dropWhile isBlank = p.core ++ p.behind :=
    dropWhile_append p.blank_before hhead
  ext1
  · exact takeWhile_append p.blank_before hhead
  · change ((p.chars.dropWhile isBlank).reverse.dropWhile isBlank).reverse = p.core
    rw [hrest, List.reverse_append, dropWhile_append p.blank_behind.reverse hlast,
      List.reverse_reverse]
  · change (p.chars.dropWhile isBlank).rtakeWhile isBlank = p.behind
    rw [hrest, List.rtakeWhile, List.reverse_append, takeWhile_append p.blank_behind.reverse hlast,
      List.reverse_reverse]

theorem eq_of_chars_eq {p q : Padded} (hp : p.core ≠ []) (hq : q.core ≠ [])
    (h : p.chars = q.chars) : p = q := by
  rw [← ofChars_chars hp, h, ofChars_chars hq]

theorem trimChars_chars (p : Padded) : trimChars p.chars = p.core := by
  by_cases hne : p.core = []
  · have hblank : Blank p.chars := by
      rw [chars, hne]
      exact List.forall_mem_append.2 ⟨p.blank_before, p.blank_behind⟩
    rw [trimChars_of_blank hblank, hne]
  · exact congrArg core (ofChars_chars hne)

end Padded

theorem mem_of_mem_trimChars {c : Char} (h : c ∈ trimChars cs) : c ∈ cs := by
  rw [← Padded.chars_ofChars cs]
  exact List.mem_append_right _ (List.mem_append_left _ h)

end Formula.Text
