import Formula.Binary64

namespace Formula

/-- The number `coefficient * 10 ^ exponent`. -/
structure Decimal where
  coefficient : Nat
  exponent : Int
deriving DecidableEq, Repr

namespace Decimal

def nearest (d : Decimal) : Nat :=
  match d.exponent with
  | .ofNat n => Binary64.nearest (d.coefficient * Nat.pow 10 n) 1
  | .negSucc n => Binary64.nearest d.coefficient (Nat.pow 10 (n + 1))

end Decimal

end Formula
