import Formula.Span
import Formula.Text.Quoted

namespace Formula

inductive Fault where
  /-- The text of a number that does not read as one. -/
  | invalidToken (text : String)
  | invalidOperator (text : String)
  | unmatchedParenthesis
  /-- A token with no place in the expression read so far. -/
  | unexpectedToken (text : String)
  | unsupportedArity (symbol : String) (arity : Nat)
  | unsupportedOperation (operation token : String)
  | invalidOperation (text : String)
  | unboundVariable (name : String)
deriving DecidableEq, Repr

def Fault.message : Fault → String
  | .invalidToken text => "invalid token " ++ Text.quoted text
  | .invalidOperator text => "invalid operator " ++ Text.quoted text
  | .unmatchedParenthesis => "unmatched parenthesis, expected \")\""
  | .unexpectedToken text => "unexpected token " ++ Text.quoted text
  | .unsupportedArity symbol arity =>
    "operator " ++ Text.quoted symbol ++ " does not take " ++ arity.repr ++ " operand(s)"
  | .unsupportedOperation operation token =>
    "cannot " ++ operation ++ " token " ++ Text.quoted token
  | .invalidOperation text => "invalid operation on " ++ text
  | .unboundVariable name => "unbound variable " ++ Text.quoted name

structure Error where
  fault : Fault
  span : Span
deriving DecidableEq, Repr

namespace Error

def map (f : Fault → Fault) (e : Error) : Error := ⟨f e.fault, e.span⟩

def message (e : Error) : String :=
  e.fault.message ++ " at " ++ e.span.start.repr ++ ".." ++ e.span.stop.repr

end Error

end Formula
