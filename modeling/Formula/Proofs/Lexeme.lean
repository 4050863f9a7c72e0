import Mathlib.Data.List.SplitBy
import Formula.Proofs.DecimalText
import Formula.TokenStream

namespace Formula

namespace Operator

def ofMark? : Char → Option Operator
  | '+' => some plus
  | '-' => some minus
  | '*' => some times
  | '/' => some divide
  | '(' => some openParen
  | ')' => some closeParen
  | '^' => some power
  | '.' => some point
  | '!' => some factorial
  | _ => none

def ofWord? (s : String) : Option Operator := [sin, cos, tan, sqrt].find? (·.symbol = s)

end Operator

inductive Lexeme where
  | number (cs : List Char)
  | word (cs : List Char)
  | mark (op : Operator)
deriving DecidableEq

namespace Lexeme

def isLetter (c : Char) : Bool := !c.isDigit && (Operator.ofMark? c).isNone

def sameRun (c d : Char) : Bool := c.isDigit && d.isDigit || isLetter c && isLetter d

def ofRun : List Char → Lexeme
  | [] => word []
  | c :: cs =>
    match Operator.ofMark? c with
    | some op => mark op
    | none => if c.isDigit then number (c :: cs) else word (c :: cs)

def runs (cs : List Char) : List Lexeme := (cs.splitBy sameRun).map ofRun

/-- The runs of digits that a chain goes on with, each behind a point, and what is behind it. -/
def chain : List Lexeme → List (List Char) × List Lexeme
  | mark .point :: number ds :: ls => (ds :: (chain ls).1, (chain ls).2)
  | ls => ([], ls)

theorem chain_length_le (ls : List Lexeme) : (chain ls).2.length ≤ ls.length := by
  fun_induction chain ls with
  | case1 ds ls ih => exact Nat.le_succ_of_le (Nat.le_succ_of_le ih)
  | case2 ls h => exact Nat.le_refl _

/-- Pairs from the last run on, which comes first here; the first run may be left over. -/
def pairBackward : List (List Char) → List (List Char)
  | fraction :: whole :: ds => (whole ++ '.' :: fraction) :: pairBackward ds
  | ds => ds

def pairs (ds : List (List Char)) : List (List Char) := (pairBackward ds.reverse).reverse

def chainNumbers (ds : List (List Char)) : List Lexeme :=
  ((pairs ds).map number).intersperse (mark .point)

def joinChains : List Lexeme → List Lexeme
  | [] => []
  | number d :: ls => chainNumbers (d :: (chain ls).1) ++ joinChains (chain ls).2
  | word w :: ls => word w :: joinChains ls
  | mark op :: ls => mark op :: joinChains ls
termination_by ls => ls.length
decreasing_by
  all_goals have hlen := chain_length_le ls
  all_goals simp only [List.length_cons]; omega

def visible (source : String) : List Char := source.toList.filter fun c => !Text.isBlank c

/-- The parts of a source, read once from left to right: runs of digits, runs of letters, and single
marks, where the runs of digits in a chain such as `1.2.3` are taken in pairs from its end. -/
def ofChars (cs : List Char) : List Lexeme := joinChains (runs cs)

def ofSource (source : String) : List Lexeme := ofChars (visible source)

/-- The number with this text; a text that reads as no double would have the value zero. -/
def numberOf (cs : List Char) : Number :=
  ⟨String.ofList cs, (Decimal.readFloat? (String.ofList cs)).getD 0.0⟩

def kind : Lexeme → Token.Kind
  | number cs => .number (numberOf cs)
  | word cs =>
    match Operator.ofWord? (String.ofList cs) with
    | some op => .operator op
    | none => .symbol (Symbol.ofName (String.ofList cs))
  | mark op => .operator op

end Lexeme

end Formula
