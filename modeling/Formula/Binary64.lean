namespace Formula.Binary64

/-- The word of the positive infinity. Smaller words are finite magnitudes, larger ones below the
sign bit are not numbers. -/
def infinity : Nat := 0x7FF0000000000000

def signBit : Nat := Nat.pow 2 63

def fractionBits : Nat := 52

/-- There are `2 ^ unitBits` units in one. -/
def unitBits : Nat := 1074

/-- The magnitude of a finite double is a whole number of the least positive double, 2 ^ -1074, so
that rounding and comparing need only natural numbers. -/
def units (word : Nat) : Nat :=
  let exponent := word / Nat.pow 2 fractionBits
  let fraction := word % Nat.pow 2 fractionBits
  if exponent = 0 then fraction
  else (Nat.pow 2 fractionBits + fraction) * Nat.pow 2 (exponent - 1)

/-- The whole number nearest to `a / b`, the even one when two are equally near. -/
def divNearest (a b : Nat) : Nat :=
  let q := a / b
  match compare (2 * (a % b)) b with
  | .lt => q
  | .eq => q + q % 2
  | .gt => q + 1

/-- The magnitude nearest to `a / b`. A significand that rounds up to the next power of two carries
into the exponent, and what is too large for the last exponent is infinite. -/
def nearest (a b : Nat) : Nat :=
  let scaled := a * Nat.pow 2 unitBits
  let shift := (scaled / b).log2 - fractionBits
  min (shift * Nat.pow 2 fractionBits + divNearest scaled (b * Nat.pow 2 shift)) infinity

theorem nearest_le (a b : Nat) : nearest a b ≤ infinity := Nat.min_le_right _ _

def ofMagnitude (negative : Bool) (word : Nat) : Float :=
  Float.ofBits (UInt64.ofNat (if negative then signBit + word else word))

def isNegative (x : Float) : Bool := signBit ≤ x.toBits.toNat

def magnitude (x : Float) : Nat := x.toBits.toNat % signBit

def isZero (x : Float) : Bool := x == 0.0

def exponentBias : Nat := 1023

/-- The magnitude without its bits behind the point. What is infinite, or not a number, has none. -/
def wholeMagnitude (word : Nat) : Nat :=
  let exponent := word / Nat.pow 2 fractionBits
  let places := exponentBias + fractionBits - exponent
  if exponent < exponentBias then 0 else word / Nat.pow 2 places * Nat.pow 2 places

/-- The whole number next to a double, towards zero. -/
def trunc (x : Float) : Float := ofMagnitude (isNegative x) (wholeMagnitude (magnitude x))

/-- What is infinite has a fraction that is not a number. -/
def fract (x : Float) : Float := x - trunc x

end Formula.Binary64
