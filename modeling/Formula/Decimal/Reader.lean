import Formula.Decimal

namespace Formula.Decimal

def splitSign : List Char → Bool × List Char
  | '-' :: cs => (true, cs)
  | '+' :: cs => (false, cs)
  | cs => (false, cs)

def digitValue (c : Char) : Nat := c.toNat - '0'.toNat

def natOfDigits (cs : List Char) : Nat := cs.foldl (fun n c => 10 * n + digitValue c) 0

/-- Digits are dropped once the exponent exceeds `0xFFFF`, which no double does. -/
def exponentOfDigits (cs : List Char) : Nat :=
  cs.foldl (fun n c => if n < 0x10000 then 10 * n + digitValue c else n) 0

def readExponent? : List Char → Option Int
  | [] => some 0
  | c :: cs =>
    let (negative, digits) := splitSign cs
    if c.toLower = 'e' && !digits.isEmpty && digits.all Char.isDigit then
      let n : Int := exponentOfDigits digits
      some (if negative then -n else n)
    else none

def splitFraction : List Char → List Char × List Char
  | '.' :: cs => (cs.takeWhile Char.isDigit, cs.dropWhile Char.isDigit)
  | cs => ([], cs)

def read? (cs : List Char) : Option Decimal :=
  let whole := cs.takeWhile Char.isDigit
  let (fraction, rest) := splitFraction (cs.dropWhile Char.isDigit)
  if whole.isEmpty && fraction.isEmpty then none
  else (readExponent? rest).map fun e => ⟨natOfDigits (whole ++ fraction), e - fraction.length⟩

/-- The special values are words, and no word is a decimal. -/
def readMagnitude? (cs : List Char) : Option Nat :=
  let word := String.ofList (cs.map Char.toLower)
  if word = "inf" || word = "infinity" then some Binary64.infinity
  else if word = "nan" then some (Binary64.infinity + 1)
  else (read? cs).map nearest

def readFloat? (s : String) : Option Float :=
  let (negative, cs) := splitSign s.toList
  (readMagnitude? cs).map (Binary64.ofMagnitude negative)

example : ["5.", "+.5", "-1e-3", "iNf"].map readFloat? =
    [some 5.0, some 0.5, some (-0.001), some (1.0 / 0.0)] := by decide +kernel

example : ["", ".", "e5", "1e", "1e+", "1_0", " 1", "infin", "--1"].filterMap readFloat? = [] := by
  decide +kernel

example : readFloat? "9007199254740993" = some 9007199254740992.0 := by decide +kernel

example : ["2.4703282292062327e-324", "1e-400", "1e400"].map readFloat? =
    [some 0.0, some 0.0, some (1.0 / 0.0)] := by decide +kernel

end Formula.Decimal
