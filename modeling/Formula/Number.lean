import Formula.Decimal.Reader
import Formula.Decimal.Writer
import Formula.Fault

namespace Formula

structure Number where
  text : String
  value : Float
deriving DecidableEq

/-- Equal texts and equal values, where a value that is not a number differs from itself. -/
instance : BEq Number where
  beq a b := a.text == b.text && a.value == b.value

namespace Number

def read (text : String) : Except Fault Number :=
  match Decimal.readFloat? text with
  | some x => .ok ⟨text, x⟩
  | none => .error (.invalidToken text)

def ofFloat (x : Float) : Number := ⟨Decimal.writeFloat x, x⟩

def check (n : Number) : Except Fault Unit := (read n.text).map fun _ => ()

def append (a b : Number) : Except Fault Number := read (a.text ++ b.text)

def withFraction (a b : Number) : Except Fault Number := read (a.text ++ "." ++ b.text)

end Number

end Formula
