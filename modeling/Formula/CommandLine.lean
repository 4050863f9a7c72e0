import Formula.Session

namespace Formula.CommandLine

structure Request where
  bindings : List (String × Float)
  folds : Bool
  expressions : List String

namespace Request

def settings (r : Request) : Settings := ⟨Bindings.ofPairs r.bindings, r.folds⟩

def addExpressions (r : Request) (texts : List String) : Request :=
  { r with expressions := r.expressions ++ texts }

end Request

structure Outcome where
  exitCode : Nat
  output : String
deriving DecidableEq

/-- A reader of arguments. It may end the program itself, at a misuse or a request for help. -/
abbrev Reader := List String → Except Outcome Request

def batch (settings : Settings) (expressions : List String) : String :=
  String.join ((expressions.zip (Expr.parseAll expressions)).map fun (input, parsed) =>
    settings.report input parsed ++ "\n")

/-- Without expressions there is an interactive session on the bytes of standard input. -/
def Request.outcome (r : Request) (input : List UInt8) : Outcome :=
  if r.expressions.isEmpty then ⟨0, Session.transcript r.settings input⟩
  else ⟨0, batch r.settings r.expressions⟩

def run (reader : Reader) (args : List String) (input : List UInt8) : Outcome :=
  match reader args with
  | .error outcome => outcome
  | .ok r => r.outcome input

end Formula.CommandLine
