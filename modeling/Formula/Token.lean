import Formula.Atom
import Formula.Operator

namespace Formula

inductive Token.Kind where
  | number (n : Number)
  | symbol (s : Symbol)
  | operator (op : Operator)
  | finish
deriving DecidableEq

namespace Token.Kind

def text : Kind → String
  | number n => n.text
  | symbol s => s.name
  | operator op => op.symbol
  | finish => "<Eof>"

def ofAtom : Atom → Kind
  | .number n => number n
  | .symbol s => symbol s

def atom? : Kind → Option Atom
  | number n => some (.number n)
  | symbol s => some (.symbol s)
  | _ => none

def operator? : Kind → Option Operator
  | operator op => some op
  | _ => none

def check : Kind → Except Fault Unit
  | number n => n.check
  | _ => .ok ()

def value (k : Kind) : Except Fault Float :=
  match k.atom? with
  | some a => .ok a.value
  | none => .error (.unsupportedOperation "take the value of" k.text)

def eval (k : Kind) (operands : List Atom) : Except Fault Float :=
  match k with
  | operator op => op.apply (operands.map Atom.value)
  | k => .error (.unsupportedOperation "evaluate" k.text)

def invoke (k : Kind) (operands : List Atom) : Except Fault Float :=
  match k with
  | operator op => op.apply (operands.map Atom.value)
  | finish => .error (.invalidOperation k.text)
  | k => k.value

end Token.Kind

structure Token where
  kind : Token.Kind
  span : Span
deriving DecidableEq

namespace Token

def finish (n : Nat) : Token := ⟨.finish, ⟨n, n⟩⟩

def text (t : Token) : String := t.kind.text

def cover (t : Token) (s : Span) : Token := { t with span := t.span.cover s }

def error (t : Token) (f : Fault) : Error := ⟨f, t.span⟩

def unexpected (t : Token) : Error := t.error (.unexpectedToken t.text)

def check (t : Token) : Except Error Unit := t.kind.check.mapError t.error

def atom (t : Token) : Except Error Atom :=
  match t.kind.atom? with
  | some a => .ok a
  | none => .error t.unexpected

end Token

end Formula
