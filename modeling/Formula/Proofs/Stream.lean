import Mathlib.Data.Stream.Init
import Formula.TokenStream

namespace Formula.TokenStream

inductive Use where
  | next
  | peek
  | rollBack (t : Token)

inductive Answer where
  | token (t : Token)
  | kind (k : Token.Kind)
  | nothing

def answers {σ : Type} (step : σ → Use → Answer × σ) : σ → List Use → List Answer
  | _, [] => []
  | s, u :: us => (step s u).1 :: answers step (step s u).2 us

def use (s : TokenStream) : Use → Answer × TokenStream
  | .next => (.token s.next.1, s.next.2)
  | .peek => (.kind s.peek, s)
  | .rollBack t => (.nothing, s.rollBack t)

def useSequence (x : Stream' Token) : Use → Answer × Stream' Token
  | .next => (.token x.head, x.tail)
  | .peek => (.kind x.head.kind, x)
  | .rollBack t => (.nothing, Stream'.cons t x)

/-- The tokens that are left, and behind them end markers without end. -/
def sequence (s : TokenStream) : Stream' Token :=
  s.tokens ++ₛ Stream'.const (Token.finish s.stop)

theorem sequence_next (s : TokenStream) :
    s.sequence.head = s.next.1 ∧ s.sequence.tail = s.next.2.sequence := by
  obtain ⟨ts, stop⟩ := s
  cases ts with
  | nil => exact ⟨rfl, Stream'.tail_const _⟩
  | cons t ts => exact ⟨rfl, rfl⟩

theorem useSequence_sequence (s : TokenStream) (u : Use) :
    useSequence s.sequence u = ((s.use u).1, (s.use u).2.sequence) := by
  obtain ⟨hhead, htail⟩ := s.sequence_next
  cases u with
  | next => rw [useSequence, hhead, htail, use]
  | peek => rw [useSequence, hhead, ← peek_eq_kind_next, use]
  | rollBack t => rfl

theorem answers_sequence (s : TokenStream) (us : List Use) :
    answers useSequence s.sequence us = answers use s us := by
  induction us generalizing s with
  | nil => rfl
  | cons u us ih =>
    have hstep := s.useSequence_sequence u
    rw [answers, answers, hstep, ih]

def nexts : (k : Nat) → TokenStream → List Token × TokenStream
  | 0, s => ([], s)
  | k + 1, s =>
    let (ts, rest) := nexts k s.next.2
    (s.next.1 :: ts, rest)

def rollBackAll (s : TokenStream) (ts : List Token) : TokenStream :=
  ts.foldr (fun t s => s.rollBack t) s

def putBack (k : Nat) (s : TokenStream) : TokenStream :=
  (s.nexts k).2.rollBackAll (s.nexts k).1

theorem sequence_rollBackAll (s : TokenStream) (ts : List Token) :
    (s.rollBackAll ts).sequence = ts ++ₛ s.sequence := by
  induction ts with
  | nil => rfl
  | cons t ts ih =>
    rw [Stream'.cons_append_stream, ← ih]
    rfl

theorem nexts_eq_take_drop (k : Nat) (s : TokenStream) :
    (s.nexts k).1 = s.sequence.take k ∧ (s.nexts k).2.sequence = s.sequence.drop k := by
  induction k generalizing s with
  | zero => exact ⟨rfl, rfl⟩
  | succ k ih =>
    obtain ⟨hhead, htail⟩ := s.sequence_next
    obtain ⟨htake, hdrop⟩ := ih s.next.2
    constructor
    · rw [Stream'.take_succ, hhead, htail, ← htake, nexts]
    · rw [Stream'.drop_succ, htail, ← hdrop, nexts]

theorem sequence_putBack (k : Nat) (s : TokenStream) : (s.putBack k).sequence = s.sequence := by
  obtain ⟨htake, hdrop⟩ := s.nexts_eq_take_drop k
  rw [putBack, sequence_rollBackAll, htake, hdrop, Stream'.append_take_drop]

theorem tokens_rollBackAll (s : TokenStream) (ts : List Token) :
    (s.rollBackAll ts).tokens = ts ++ s.tokens := by
  induction ts with
  | nil => rfl
  | cons t ts ih => exact congrArg (t :: ·) ih

/-- Past the last token end markers are taken, and put back as tokens. -/
theorem tokens_putBack (k : Nat) (s : TokenStream) : (s.putBack k).tokens =
    s.tokens ++ List.replicate (k - s.tokens.length) (Token.finish s.stop) := by
  rw [putBack, tokens_rollBackAll]
  induction k generalizing s with
  | zero => simp [nexts]
  | succ k ih =>
    obtain ⟨ts, stop⟩ := s
    cases ts with
    | nil => simpa [nexts, next, List.replicate_succ] using ih ⟨[], stop⟩
    | cons t ts => simpa [nexts, next] using ih ⟨ts, stop⟩

theorem tokens_putBack_eq_iff (k : Nat) (s : TokenStream) :
    (s.putBack k).tokens = s.tokens ↔ k ≤ s.tokens.length := by
  rw [tokens_putBack, List.append_right_eq_self, List.replicate_eq_nil_iff]
  exact Nat.sub_eq_zero_iff_le

theorem length_intercalate_lt (sep : String) (ls : List String) {ms : List String} (hms : ms ≠ [])
    (hm : ∀ m ∈ ms, 0 < m.length) :
    (sep.intercalate ls).length < (sep.intercalate (ls ++ ms)).length := by
  have hpos : 0 < (sep.intercalate ms).length := by
    cases ms with
    | nil => contradiction
    | cons m ms =>
      have hlen := hm m List.mem_cons_self
      by_cases hrest : ms = []
      · rwa [hrest, String.intercalate_singleton]
      · rw [String.intercalate_cons_of_ne_nil hrest, String.length_append, String.length_append]
        omega
  by_cases hls : ls = []
  · simpa [hls] using hpos
  · rw [String.intercalate_append_of_ne_nil hls hms, String.length_append, String.length_append]
    omega

theorem text_putBack_eq_iff (k : Nat) (s : TokenStream) :
    (s.putBack k).text = s.text ↔ k ≤ s.tokens.length := by
  constructor
  · intro htext
    by_contra hk
    have hne : List.replicate (k - s.tokens.length) (Token.finish s.stop).text ≠ [] := by
      rw [ne_eq, List.replicate_eq_nil_iff]
      omega
    have hmarks : ∀ m ∈ List.replicate (k - s.tokens.length) (Token.finish s.stop).text,
        0 < m.length := by
      intro m hm
      rw [List.eq_of_mem_replicate hm]
      exact (by decide : 0 < "<Eof>".length)
    have hlt := length_intercalate_lt "\n" (s.tokens.map Token.text) hne hmarks
    rw [text, tokens_putBack, List.map_append, List.map_replicate] at htext
    rw [htext] at hlt
    exact Nat.lt_irrefl _ hlt
  · intro hk
    rw [text, (s.tokens_putBack_eq_iff k).2 hk, text]

/-- A stream answers every sequence of uses as the infinite sequence of its tokens does. Taking any
number of tokens off, also past the end, and putting them in front again from last to first changes
no later answer; it leaves the tokens, and their text, as they were exactly if no more were taken
than there were. -/
theorem answers_eq_answers_sequence (s : TokenStream) :
    (∀ us, answers use s us = answers useSequence s.sequence us) ∧
      ∀ k, (∀ us, answers use (s.putBack k) us = answers use s us) ∧
        ((s.putBack k).tokens = s.tokens ↔ k ≤ s.tokens.length) ∧
        ((s.putBack k).text = s.text ↔ k ≤ s.tokens.length) := by
  refine ⟨fun us => (s.answers_sequence us).symm, fun k => ⟨?_, ?_, ?_⟩⟩
  · intro us
    rw [← answers_sequence, sequence_putBack, answers_sequence]
  · exact s.tokens_putBack_eq_iff k
  · exact s.text_putBack_eq_iff k

end Formula.TokenStream
