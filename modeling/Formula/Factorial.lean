import Formula.Binary64

namespace Formula

open Binary64

/-- The product of the numbers up to 171 is infinite, so that the loop never turns more often. -/
def maxTurns : Nat := 170

def multiplyOn (x : Float) : (turns : Nat) → (k acc : Float) → Float
  | 0, _, acc => acc
  | turns + 1, k, acc =>
    if k ≤ x ∧ acc.isFinite then multiplyOn x turns (k + 1.0) (acc * k) else acc

/-- The factorial of zero is zero, and only natural numbers have one. -/
def factorial (x : Float) : Float :=
  if isZero x then 0.0
  else if x < 1.0 ∨ ¬ isZero (fract x) then 0.0 / 0.0
  else multiplyOn x maxTurns 2.0 1.0

example : [0.0, -0.0, 1.0, 5.0, 171.0].map factorial = [0.0, 0.0, 1.0, 120.0, 1.0 / 0.0] := by
  decide +kernel

example : [-1.0, 2.5, 1.0 / 0.0, 0.0 / 0.0].map (fun x => (factorial x).isNaN) =
    [true, true, true, true] := by decide +kernel

end Formula
