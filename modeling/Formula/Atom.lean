import Formula.Number

namespace Formula

structure Symbol where
  name : String
  bound : Option Float
deriving DecidableEq

instance : BEq Symbol where
  beq a b := a.name == b.name && a.bound == b.bound

namespace Symbol

def ofName (name : String) : Symbol := ⟨name, none⟩

def append (a b : Symbol) : Symbol := { a with name := a.name ++ b.name }

def assign (s : Symbol) (x : Float) : Symbol := { s with bound := some x }

/-- A symbol that is not bound counts as zero. -/
def value (s : Symbol) : Float := s.bound.getD 0.0

end Symbol

inductive Atom where
  | number (n : Number)
  | symbol (s : Symbol)
deriving DecidableEq, BEq

namespace Atom

def value : Atom → Float
  | number n => n.value
  | symbol s => s.value

def strictValue : Atom → Except Fault Float
  | number n => .ok n.value
  | symbol s =>
    match s.bound with
    | some x => .ok x
    | none => .error (.unboundVariable s.name)

def isResolved : Atom → Bool
  | number _ => true
  | symbol s => s.bound.isSome

def text : Atom → String
  | number n => n.text
  | symbol s => s.name

def name? : Atom → Option String
  | number _ => none
  | symbol s => some s.name

end Atom

end Formula
