import Formula.Text.Blank
import Formula.Token

namespace Formula.Token

def Kind.ofChar (c : Char) : Except Fault Kind :=
  match Operator.ofChar? c with
  | some op => .ok (.operator op)
  | none =>
    if c.isDigit then (Number.read (String.singleton c)).map .number
    else .ok (.symbol (Symbol.ofName (String.singleton c)))

/-- One token for each character that is not blank; the first character has the place `start`. -/
def scan (start : Nat) : List Char → Except Error (List Token)
  | [] => .ok []
  | c :: cs =>
    if Text.isBlank c then scan (start + 1) cs
    else do
      let span := ⟨start, start + 1⟩
      let kind ← (Kind.ofChar c).mapError (⟨·, span⟩)
      let rest ← scan (start + 1) cs
      return ⟨kind, span⟩ :: rest

/-- Joins each token to the run on its right wherever `join` has a token for the two. -/
def glue (join : Token → Token → Except Error (Option Token)) :
    List Token → Except Error (List Token)
  | [] => .ok []
  | t :: ts => do
    match ← glue join ts with
    | [] => return [t]
    | u :: us =>
      match ← join t u with
      | some v => return v :: us
      | none => return t :: u :: us

def joinNumbers (t u : Token) : Except Error (Option Token) :=
  match t.kind, u.kind with
  | .number a, .number b => do
    let n ← (a.append b).mapError u.error
    return some ⟨.number n, t.span.cover u.span⟩
  | _, _ => .ok none

def joinSymbols (t u : Token) : Except Error (Option Token) :=
  match t.kind, u.kind with
  | .symbol a, .symbol b => .ok (some ⟨.symbol (a.append b), t.span.cover u.span⟩)
  | _, _ => .ok none

/-- Joins numbers around a point, on tokens from last to first. A number that was joined is not
joined again, so of `1.2.3` the last two numbers are one. -/
def joinPointsBackward : List Token → Except Error (List Token)
  | t :: p :: u :: ts =>
    match t.kind, p.kind, u.kind with
    | .number fraction, .operator .point, .number whole => do
      let n ← (whole.withFraction fraction).mapError t.error
      let rest ← joinPointsBackward ts
      return ⟨.number n, u.span.cover t.span⟩ :: rest
    | _, _, _ => do
      let rest ← joinPointsBackward (p :: u :: ts)
      return t :: rest
  | ts => .ok ts

def joinPoints (ts : List Token) : Except Error (List Token) :=
  (joinPointsBackward ts.reverse).map List.reverse

def nameOperator (t : Token) : Token :=
  match t.kind with
  | .symbol s =>
    match Operator.ofSymbol? s.name with
    | some op => { t with kind := .operator op }
    | none => t
  | _ => t

def ofSource (source : String) : Except Error (List Token) := do
  let scanned ← scan 0 source.toList
  let numbers ← glue joinNumbers scanned
  let decimals ← joinPoints numbers
  let symbols ← glue joinSymbols decimals
  return symbols.map nameOperator

example : ((ofSource "1.2.3 4ab c").map (·.map text)).toOption =
    some ["1", ".", "2.34", "abc"] := by decide +kernel

end Formula.Token
