import Formula.Expr

namespace Formula.Expr

def value : Expr → Except Fault Float
  | atom a => .ok a.value
  | unary op e => do
    let x ← e.value
    op.apply [x]
  | binary op l r => do
    let x ← l.value
    let y ← r.value
    op.apply [x, y]

def strictValue : Expr → Except Fault Float
  | atom a => a.strictValue
  | unary op e => do
    let x ← e.strictValue
    op.apply [x]
  | binary op l r => do
    let x ← l.strictValue
    let y ← r.strictValue
    op.apply [x, y]

def resolved? : Expr → Option Float
  | atom a => if a.isResolved then some a.value else none
  | _ => none

def collapseUnary (op : Operator) (e : Expr) (rest : Except Fault Expr) : Except Fault Expr :=
  match e.resolved? with
  | some x => (op.apply [x]).map ofFloat
  | none => rest

def collapseBinary (op : Operator) (l r : Expr) (rest : Except Fault Expr) :
    Except Fault Expr :=
  match l.resolved?, r.resolved? with
  | some x, some y => (op.apply [x, y]).map ofFloat
  | _, _ => rest

/-- Computes the operations that have only leaves with values for operands. -/
def step : Expr → Except Fault Expr
  | atom a => .ok (atom a)
  | unary op e => collapseUnary op e do
    let e ← e.step
    return unary op e
  | binary op l r => collapseBinary op l r do
    let l ← l.step
    let r ← r.step
    return binary op l r

/-- Computes every operation below which no symbol is without a value. -/
def fold : Expr → Except Fault Expr
  | atom a => .ok (atom a)
  | unary op e => do
    let e ← e.fold
    collapseUnary op e (.ok (unary op e))
  | binary op l r => do
    let l ← l.fold
    let r ← r.fold
    collapseBinary op l r (.ok (binary op l r))

end Formula.Expr
