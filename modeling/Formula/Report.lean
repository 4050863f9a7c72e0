import Formula.Expr.Binding
import Formula.Expr.Evaluation
import Formula.Expr.Parse

namespace Formula

structure Settings where
  bindings : Bindings
  /-- Whether the folded tree is shown. -/
  folds : Bool

namespace Report

/-- A mark under each character of a stretch; an empty one has a single mark. -/
def carets (s : Span) : String :=
  let stop := max s.stop (s.start + 1)
  String.ofList (List.replicate s.start ' ' ++ List.replicate (stop - s.start) '^')

def ofError (input : String) (e : Error) : String :=
  "[Echo] " ++ input ++ "\n       " ++ carets e.span ++ "\n[Error] " ++ e.message

def shown (settings : Settings) (e : Expr) : Except Fault String :=
  if settings.folds then e.fold.map Expr.render else .ok e.render

def ofExpr (settings : Settings) (input : String) (e : Expr) : String :=
  let (e, _) := e.bind settings.bindings
  match shown settings e, e.value with
  | .ok tree, .ok x =>
    "[Echo] " ++ input ++ "\n[Parse] " ++ tree ++ "\n[Eval] " ++ Decimal.writeFloat x
  | .error f, _ => "[Error] " ++ f.message
  | _, .error f => "[Error] " ++ f.message

end Report

def Settings.report (settings : Settings) (input : String) : Except Error Expr → String
  | .ok e => Report.ofExpr settings input e
  | .error e => Report.ofError input e

example :
    let settings : Settings := ⟨Bindings.ofPairs [("x", 2.0)], true⟩
    settings.report "x * (1 + 2)" (Expr.parse "x * (1 + 2)") =
      "[Echo] x * (1 + 2)\n[Parse] 6\n[Eval] 6" := by decide +kernel

example :
    let settings : Settings := ⟨∅, false⟩
    settings.report "2 ++ 3" (Expr.parse "2 ++ 3") =
      "[Echo] 2 ++ 3\n          ^\n[Error] unexpected token \"+\" at 3..4" := by decide +kernel

end Formula
