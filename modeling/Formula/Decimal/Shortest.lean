import Formula.Decimal

namespace Formula.Decimal

def digitCount (n : Nat) : Nat := (Nat.toDigits 10 n).length

/-- The digits before the point; of a number below one, the zeros after the point, negated. -/
def pointPlace (units : Nat) : Int :=
  let whole := units / Nat.pow 2 Binary64.unitBits
  if whole = 0 then 1 - (digitCount ((Nat.pow 2 Binary64.unitBits - 1) / units) : Int)
  else digitCount whole

/-- The number of units as a quotient in which one is `10 ^ place`. -/
def quotientAt (units : Nat) (place : Int) : Nat × Nat :=
  match place with
  | .ofNat n => (units, Nat.pow 2 Binary64.unitBits * Nat.pow 10 n)
  | .negSucc n => (units * Nat.pow 10 (n + 1), Nat.pow 2 Binary64.unitBits)

/-- The decimals of `n` digits on either side, the nearer one first, and the upper one of two that
are equally near. -/
def neighbours (units n : Nat) : List Decimal :=
  let place := pointPlace units - n
  let (a, b) := quotientAt units place
  let below := ⟨a / b, place⟩
  let above := if a / b + 1 = Nat.pow 10 n then ⟨1, place + n⟩ else ⟨a / b + 1, place⟩
  if 2 * (a % b) < b then [below, above] else [above, below]

/-- The units themselves: a half to the power `n` is five to that power with `n` places. -/
def exact (units : Nat) : Decimal := ⟨units * Nat.pow 5 Binary64.unitBits, -Binary64.unitBits⟩

/-- Seventeen digits tell all doubles apart, so the exact decimal is never needed. -/
def shortest (word : Nat) : Decimal :=
  let units := Binary64.units word
  let hit := (List.range' 1 17).findSome? fun n => (neighbours units n).find? (·.nearest = word)
  hit.getD (exact units)

end Formula.Decimal
