import Formula.Token.Scan

namespace Formula

/-- The tokens that are left, first one first, and the length of the source. -/
structure TokenStream where
  tokens : List Token
  stop : Nat
deriving DecidableEq

namespace TokenStream

def ofSource (source : String) : Except Error TokenStream := do
  let tokens ← Token.ofSource source
  return ⟨tokens ++ [Token.finish source.length], source.length⟩

def next (s : TokenStream) : Token × TokenStream :=
  match s.tokens with
  | [] => (Token.finish s.stop, s)
  | t :: ts => (t, { s with tokens := ts })

def peek (s : TokenStream) : Token.Kind :=
  match s.tokens with
  | [] => .finish
  | t :: _ => t.kind

def rollBack (s : TokenStream) (t : Token) : TokenStream := { s with tokens := t :: s.tokens }

theorem next_rollBack (s : TokenStream) (t : Token) : (s.rollBack t).next = (t, s) := rfl

theorem peek_eq_kind_next (s : TokenStream) : s.peek = s.next.1.kind := by
  unfold peek next
  split <;> rfl

def isEmpty (s : TokenStream) : Bool := s.tokens.isEmpty

def text (s : TokenStream) : String := "\n".intercalate (s.tokens.map Token.text)

end TokenStream

end Formula
