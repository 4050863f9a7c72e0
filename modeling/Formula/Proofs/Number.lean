import Formula.Number
import Formula.Proofs.DecimalText.Grammar
import Formula.Proofs.DecimalText.Rereading

namespace Formula.Number

/-- A change of a number that may fail. The number is there also after a failure. -/
abbrev Edit := ExceptT Fault (StateM Number)

/-- Reads the text, then sets the value, then the text. -/
def assign (text : String) : Edit Unit := do
  let n ← MonadExcept.ofExcept (read text)
  modify fun a => { a with value := n.value }
  modify fun a => { a with text := text }

def reassign (text : Number → String) : Edit Unit := do assign (text (← get))

inductive Step where
  /-- Takes the number that is read from a text in place of the present one. -/
  | read (text : String)
  | ofFloat (x : Float)
  | append (b : Number)
  | withFraction (b : Number)

namespace Step

def edit : Step → Edit Unit
  | read text => do set (← MonadExcept.ofExcept (Number.read text))
  | ofFloat x => set (Number.ofFloat x)
  | append b => reassign fun a => a.text ++ b.text
  | withFraction b => reassign fun a => a.text ++ "." ++ b.text

def run (s : Step) (a : Number) : Except Fault Unit × Number := StateT.run (m := Id) s.edit.run a

def result : Step → Number → Except Fault Number
  | read text, _ => Number.read text
  | ofFloat x, _ => .ok (Number.ofFloat x)
  | append b, a => a.append b
  | withFraction b, a => a.withFraction b

def settle (a : Number) : Except Fault Number → Except Fault Unit × Number
  | .ok n => (.ok (), n)
  | .error f => (.error f, a)

end Step

def Agrees (n : Number) : Prop := Decimal.readFloat? n.text = some n.value

def Fresh (n : Number) : Prop := (∃ text, read text = .ok n) ∨ ∃ x, n = ofFloat x

section Reading

variable {text : String}

theorem read_eq_ok {x : Float} (h : Decimal.readFloat? text = some x) :
    read text = .ok ⟨text, x⟩ := by
  rw [read, h]

theorem read_eq_error (h : Decimal.readFloat? text = none) :
    read text = .error (.invalidToken text) := by
  rw [read, h]

/-- A text is read, with its value, exactly if it is one of the grammar. -/
theorem read_cases (text : String) :
    (Decimal.IsFloat text.toList ∧ ∃ n, read text = .ok n ∧ n.text = text ∧ n.Agrees) ∨
      ¬Decimal.IsFloat text.toList ∧ read text = .error (.invalidToken text) := by
  rw [← Decimal.readFloat?_isSome_iff]
  cases h : Decimal.readFloat? text with
  | some x => exact Or.inl ⟨rfl, ⟨text, x⟩, read_eq_ok h, rfl, h⟩
  | none => exact Or.inr ⟨Bool.false_ne_true, read_eq_error h⟩

theorem agrees_of_read {n : Number} (h : read text = .ok n) : n.Agrees := by
  obtain ⟨-, m, hread, -, hagrees⟩ | ⟨-, hread⟩ := read_cases text
  · rw [hread] at h
    cases h
    exact hagrees
  · rw [hread] at h
    cases h

end Reading

theorem agrees_ofFloat (x : Float) : (ofFloat x).Agrees := Decimal.readFloat?_writeFloat x

theorem Fresh.agrees {n : Number} (h : n.Fresh) : n.Agrees := by
  obtain ⟨text, h⟩ | ⟨x, rfl⟩ := h
  · exact agrees_of_read h
  · exact agrees_ofFloat x

theorem Agrees.check {n : Number} (h : n.Agrees) : n.check = .ok () := by
  rw [Number.check, read_eq_ok h]
  rfl

theorem run_assign (text : String) (a : Number) :
    StateT.run (m := Id) (assign text).run a = Step.settle a (read text) := by
  cases h : Decimal.readFloat? text with
  | some x =>
    rw [assign, read_eq_ok h]
    rfl
  | none =>
    rw [assign, read_eq_error h]
    rfl

theorem run_get (edit : Number → Edit Unit) (a : Number) :
    StateT.run (m := Id) (do edit (← get)).run a = StateT.run (m := Id) (edit a).run a := rfl

theorem run_reassign (text : Number → String) (a : Number) :
    StateT.run (m := Id) (reassign text).run a = Step.settle a (read (text a)) := by
  rw [reassign, run_get, run_assign]

namespace Step

/-- What is done in place is what the functions that leave the number alone give. -/
theorem run_eq_settle (s : Step) (a : Number) : s.run a = settle a (s.result a) := by
  cases s with
  | read text =>
    rw [run, edit, result]
    cases Number.read text with
    | ok n => rfl
    | error f => rfl
  | ofFloat x => rfl
  | append b => rw [run, edit, run_reassign, result, Number.append]
  | withFraction b => rw [run, edit, run_reassign, result, Number.withFraction]

theorem agrees_result {s : Step} {a n : Number} (h : s.result a = .ok n) : n.Agrees := by
  cases s with
  | read text => exact agrees_of_read h
  | ofFloat x =>
    cases h
    exact agrees_ofFloat x
  | append b =>
    rw [result, Number.append] at h
    exact agrees_of_read h
  | withFraction b =>
    rw [result, Number.withFraction] at h
    exact agrees_of_read h

theorem agrees_run (s : Step) {a : Number} (h : a.Agrees) : (s.run a).2.Agrees := by
  rw [run_eq_settle]
  cases hresult : s.result a with
  | ok n => exact agrees_result hresult
  | error f => exact h

end Step

def after (steps : List Step) (a : Number) : Number := steps.foldl (fun a s => (s.run a).2) a

theorem agrees_after (steps : List Step) {a : Number} (h : a.Agrees) : (after steps a).Agrees := by
  induction steps generalizing a with
  | nil => exact h
  | cons s steps ih => exact ih (s.agrees_run h)

/-- Gives a number the text if it is one of a double, and leaves all as it is if it is not. -/
structure Step.Atomic (s : Step) (text : String) (a : Number) : Prop where
  ok_iff : (s.run a).1 = .ok () ↔ Decimal.IsFloat text.toList
  text_of_ok : (s.run a).1 = .ok () → (s.run a).2.text = text
  unchanged : ∀ f, (s.run a).1 = .error f → f = .invalidToken text ∧ (s.run a).2 = a

theorem Step.atomic_of_result {s : Step} {text : String} {a : Number}
    (h : s.result a = Number.read text) : s.Atomic text a := by
  have hrun : s.run a = settle a (Number.read text) := by rw [run_eq_settle, h]
  obtain ⟨hfloat, n, hread, htext, -⟩ | ⟨hfloat, hread⟩ := read_cases text
  · have hok : s.run a = (.ok (), n) := by rw [hrun, hread, settle]
    refine ⟨?_, ?_, ?_⟩
    · rw [hok]
      exact iff_of_true rfl hfloat
    · intro
      rw [hok]
      exact htext
    · intro f hf
      rw [hok] at hf
      cases hf
  · have herror : s.run a = (.error (.invalidToken text), a) := by rw [hrun, hread, settle]
    refine ⟨?_, ?_, ?_⟩
    · rw [herror]
      apply iff_of_false _ hfloat
      intro h
      cases h
    · intro h
      rw [herror] at h
      cases h
    · intro f hf
      rw [herror] at hf ⊢
      cases hf
      exact ⟨rfl, rfl⟩

/-- Whatever is done to a number, its text reads as its value, so that nothing is found wrong with
it. Texts are joined exactly if one of a double comes of it, and else the number stays as it is. -/
theorem agrees_and_atomic {start : Number} (h : start.Fresh) (steps : List Step) :
    (after steps start).Agrees ∧ (after steps start).check = .ok () ∧
      ∀ b : Number,
        (Step.append b).Atomic ((after steps start).text ++ b.text) (after steps start) ∧
        (Step.withFraction b).Atomic ((after steps start).text ++ "." ++ b.text)
          (after steps start) := by
  have hagrees := agrees_after steps h.agrees
  exact ⟨hagrees, hagrees.check, fun b => ⟨Step.atomic_of_result rfl, Step.atomic_of_result rfl⟩⟩

theorem agrees_and_atomic_instance :
    let one : Number := ⟨"1", 1.0⟩
    let five : Number := ⟨"5", 5.0⟩
    let broken := ofFloat 2.5
    let number := after [.append five, .withFraction broken] one
    one.Fresh ∧ five.Fresh ∧ broken.Fresh ∧ number.text = "15" ∧ number.Agrees ∧
      ((Step.append five).run number).2.text = "155" ∧
      ((Step.withFraction broken).run number).1 = .error (.invalidToken "15.2.5") ∧
      ((Step.withFraction broken).run number).2 = number := by
  intro one five broken number
  have hone : one.Fresh := Or.inl ⟨"1", by decide +kernel⟩
  have hfive : five.Fresh := Or.inl ⟨"5", by decide +kernel⟩
  have htext : number.text = "15" := by decide +kernel
  have hjoined : ((Step.append five).run number).1 = .ok () := by decide +kernel
  have hfails : ((Step.withFraction broken).run number).1 = .error (.invalidToken "15.2.5") := by
    decide +kernel
  obtain ⟨hagrees, -, hatomic⟩ := agrees_and_atomic hone [.append five, .withFraction broken]
  obtain ⟨hfiveAtomic, -⟩ := hatomic five
  obtain ⟨-, hbrokenAtomic⟩ := hatomic broken
  refine ⟨hone, hfive, Or.inr ⟨2.5, rfl⟩, htext, hagrees, ?_, hfails,
    (hbrokenAtomic.unchanged _ hfails).2⟩
  rw [hfiveAtomic.text_of_ok hjoined]
  change number.text ++ "5" = "155"
  rw [htext]
  rfl

end Formula.Number
