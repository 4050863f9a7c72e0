namespace Formula

/-- The characters from `start` up to, but not including, `stop`. -/
structure Span where
  start : Nat
  stop : Nat
deriving DecidableEq, Repr

namespace Span

def cover (s t : Span) : Span := ⟨min s.start t.start, max s.stop t.stop⟩

end Span

end Formula
