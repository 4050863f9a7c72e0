import Formula.Decimal.Shortest

namespace Formula.Decimal

def digits (n : Nat) : List Char := Nat.toDigits 10 n

def paddedDigits (n m : Nat) : List Char :=
  List.replicate (n - (digits m).length) '0' ++ digits m

def write (d : Decimal) : List Char :=
  match d.exponent with
  | .ofNat n => digits d.coefficient ++ List.replicate n '0'
  | .negSucc n =>
    digits (d.coefficient / Nat.pow 10 (n + 1)) ++
      '.' :: paddedDigits (n + 1) (d.coefficient % Nat.pow 10 (n + 1))

def writeMagnitude (word : Nat) : List Char :=
  if word = Binary64.infinity then ['i', 'n', 'f']
  else if word = 0 then ['0']
  else write (shortest word)

/-- A value that is not a number has no sign; a zero keeps its own. -/
def writeFloat (x : Float) : String :=
  let word := Binary64.magnitude x
  if Binary64.infinity < word then "NaN"
  else
    let text := writeMagnitude word
    String.ofList (if Binary64.isNegative x then '-' :: text else text)

example : writeFloat (0.1 + 0.2) = "0.30000000000000004" := by decide +kernel

example : writeFloat 1e23 = "100000000000000000000000" := by decide +kernel

example : writeFloat (-1.0 / 1e6) = "-0.000001" := by decide +kernel

example : [0.0, -0.0, 1.0 / 0.0, -1.0 / 0.0, 0.0 / 0.0].map writeFloat =
    ["0", "-0", "inf", "-inf", "NaN"] := by decide +kernel

example : writeFloat (1.0 / 33554432.0) = "0.000000029802322387695313" := by decide +kernel

end Formula.Decimal
