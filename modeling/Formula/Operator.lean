import Formula.Factorial
import Formula.Fault

namespace Formula

inductive Operator where
  | plus | minus | times | divide | openParen | closeParen | sin | cos | tan | power | sqrt | point
  | factorial
deriving DecidableEq, Repr

inductive Fixity where
  | before | between | after
deriving DecidableEq, Repr

/-- How tightly an operator holds the operand on each side. One that holds its left operand more
tightly than its right one groups to the right. -/
structure BindingPower where
  left : Float
  right : Float
deriving DecidableEq

namespace Operator

def all : List Operator :=
  [plus, minus, times, divide, openParen, closeParen, sin, cos, tan, power, sqrt, point, factorial]

theorem mem_all (op : Operator) : op ∈ all := by
  cases op <;> decide

def symbol : Operator → String
  | plus => "+"
  | minus => "-"
  | times => "*"
  | divide => "/"
  | openParen => "("
  | closeParen => ")"
  | sin => "sin"
  | cos => "cos"
  | tan => "tan"
  | power => "^"
  | sqrt => "sqrt"
  | point => "."
  | factorial => "!"

theorem symbol_injective {op op' : Operator} (h : op.symbol = op'.symbol) : op = op' := by
  cases op <;> cases op' <;> first | rfl | exact absurd h (by decide)

def ofSymbol? (s : String) : Option Operator := all.find? (·.symbol = s)

theorem ofSymbol?_eq_some_iff {s : String} {op : Operator} :
    ofSymbol? s = some op ↔ op.symbol = s := by
  constructor
  · intro h
    simpa using List.find?_some h
  · rintro rfl
    cases op <;> decide

def ofChar? (c : Char) : Option Operator := ofSymbol? (String.singleton c)

def read (s : String) : Except Fault Operator :=
  match ofSymbol? s with
  | some op => .ok op
  | none => .error (.invalidOperator s)

theorem read_symbol (op : Operator) : read op.symbol = .ok op := by
  rw [read, ofSymbol?_eq_some_iff.2 rfl]

def isBefore : Operator → Bool
  | minus | sin | cos | tan | sqrt => true
  | _ => false

def isAfter : Operator → Bool
  | factorial => true
  | _ => false

def fixity (op : Operator) : Fixity :=
  if op.isBefore then .before else if op.isAfter then .after else .between

def unaryPower : Float := 100.0

def beforePower? (op : Operator) : Option BindingPower :=
  if op.isBefore then some ⟨0.0, unaryPower⟩ else none

def afterPower? (op : Operator) : Option BindingPower :=
  if op.isAfter then some ⟨unaryPower, 0.0⟩ else none

/-- The power of an operator that stands behind an operand. The functions `sin`, `cos` and `tan`
have that with which they stand before one; brackets and the point have none. -/
def power? : Operator → Option BindingPower
  | plus | minus => some ⟨1.0, 1.1⟩
  | times | divide => some ⟨2.0, 2.1⟩
  | power | sqrt => some ⟨3.1, 3.0⟩
  | op => op.afterPower? <|> op.beforePower?

def unary? : Operator → Option (Float → Float)
  | minus => some fun x => -x
  | sqrt => some Float.sqrt
  | sin => some Float.sin
  | cos => some Float.cos
  | tan => some Float.tan
  | factorial => some Formula.factorial
  | _ => none

/-- Between two operands `sqrt` is the root of the first whose degree is the second. -/
def binary? : Operator → Option (Float → Float → Float)
  | plus => some fun x y => x + y
  | minus => some fun x y => x - y
  | times => some fun x y => x * y
  | divide => some fun x y => x / y
  | power => some Float.pow
  | sqrt => some fun x y => Float.pow x (1.0 / y)
  | _ => none

def takes (op : Operator) : (n : Nat) → Bool
  | 1 => op.unary?.isSome
  | 2 => op.binary?.isSome
  | _ => false

def arities (op : Operator) : List Nat := [1, 2].filter op.takes

def arityFault (op : Operator) (n : Nat) : Fault := .unsupportedArity op.symbol n

def apply (op : Operator) (xs : List Float) : Except Fault Float :=
  match xs, op.unary?, op.binary? with
  | [x], some f, _ => .ok (f x)
  | [x, y], _, some f => .ok (f x y)
  | xs, _, _ => .error (op.arityFault xs.length)

end Operator

/-- The fixity of any text: what is no operator's symbol would stand between two operands. -/
def Fixity.ofSymbol (s : String) : Fixity :=
  match Operator.ofSymbol? s with
  | some op => op.fixity
  | none => .between

end Formula
