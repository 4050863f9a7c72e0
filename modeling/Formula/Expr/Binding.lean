import Formula.Bindings
import Formula.Expr

namespace Formula.Expr

/-- The tree with a value for each symbol that `m` names, and whether it names them all. -/
def bind (m : Bindings) : Expr → Expr × Bool
  | atom (.number n) => (atom (.number n), true)
  | atom (.symbol s) =>
    match m[s.name]? with
    | some x => (atom (.symbol (s.assign x)), true)
    | none => (atom (.symbol s), false)
  | unary op e =>
    let (e, all) := e.bind m
    (unary op e, all)
  | binary op l r =>
    let (l, leftAll) := l.bind m
    let (r, rightAll) := r.bind m
    (binary op l r, leftAll && rightAll)

end Formula.Expr
