import Formula.Atom
import Formula.Operator

namespace Formula

inductive Expr where
  | atom (a : Atom)
  | unary (op : Operator) (operand : Expr)
  | binary (op : Operator) (left right : Expr)
deriving DecidableEq, BEq

namespace Expr

def ofFloat (x : Float) : Expr := atom (.number (Number.ofFloat x))

def isAtom : Expr → Bool
  | atom _ => true
  | _ => false

/-- The operation, provided that the operator computes something from so many operands. -/
def operation (op : Operator) (operands : List Expr) : Except Fault Expr :=
  match operands with
  | [e] => if op.takes 1 then .ok (unary op e) else .error (op.arityFault 1)
  | [l, r] => if op.takes 2 then .ok (binary op l r) else .error (op.arityFault 2)
  | es => .error (op.arityFault es.length)

/-- Every operator in the tree computes something from the operands that it has there. -/
def WellFormed : Expr → Prop
  | atom _ => True
  | unary op e => op.takes 1 = true ∧ e.WellFormed
  | binary op l r => op.takes 2 = true ∧ l.WellFormed ∧ r.WellFormed

theorem wellFormed_of_operation {op : Operator} {es : List Expr} {e : Expr}
    (hs : ∀ e ∈ es, e.WellFormed) (h : operation op es = .ok e) : e.WellFormed := by
  unfold operation at h
  split at h
  · split at h <;> simp_all
    subst h
    exact ⟨by assumption, hs⟩
  · split at h <;> simp_all
    subst h
    exact ⟨by assumption, hs⟩
  · simp at h

def leaves : Expr → List Atom
  | atom a => [a]
  | unary _ e => e.leaves
  | binary _ l r => l.leaves ++ r.leaves

/-- The names of the symbols, each where it stands first. -/
def symbols (e : Expr) : List String := (e.leaves.filterMap Atom.name?).eraseDups

def depth : Expr → Nat
  | atom _ => 1
  | unary _ e => 1 + e.depth
  | binary _ l r => 1 + max l.depth r.depth

def render : Expr → String
  | atom a => a.text
  | unary op e => "(" ++ op.symbol ++ " " ++ e.render ++ ")"
  | binary op l r => "(" ++ op.symbol ++ " " ++ l.render ++ " " ++ r.render ++ ")"

end Expr

end Formula
