import Formula.Expr.Climbing

namespace Formula

/-- Reads an expression whose operators have at least the power `least`. The stream goes on behind
what was read, also when that is an error. -/
def TokenStream.readExpr (s : TokenStream) (least : Float) : Except Error Expr × TokenStream :=
  let (result, rest) := (Expr.climb s.stop least s.tokens).val
  (result, { s with tokens := rest })

def TokenStream.readWhole (s : TokenStream) : Except Error Expr :=
  match s.readExpr 0.0 with
  | (.error e, _) => .error e
  | (.ok e, rest) =>
    let (token, _) := rest.next
    if token.kind = .finish then .ok e else .error token.unexpected

namespace Expr

def parse (source : String) : Except Error Expr := do
  let tokens ← TokenStream.ofSource source
  tokens.readWhole

def parseAll (sources : List String) : List (Except Error Expr) := sources.map parse

example : ((parse "1 - 2 - 3 * x").map render).toOption = some "(- (- 1 2) (* 3 x))" := by
  decide +kernel

example : ((parse "2 ^ 3 sqrt 4 ^ 5").map render).toOption = some "(^ 2 (sqrt 3 (^ 4 5)))" := by
  decide +kernel

example : ((parse "-2! ^ (1 + 2)").map render).toOption = some "(^ (- (! 2)) (+ 1 2))" := by
  decide +kernel

end Expr

end Formula
