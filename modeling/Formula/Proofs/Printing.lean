import Formula.Proofs.Grammar
import Formula.Proofs.Lexeme

namespace Formula

inductive Side where
  | left | right
deriving DecidableEq

def Level.beside (m : Level) : Side → Level
  | .left => m.left
  | .right => m.right

namespace Operator

def isWord : Operator → Bool
  | sin | cos | tan | sqrt => true
  | _ => false

def tightness : Operator → Nat
  | plus | minus => 0
  | times | divide => 1
  | _ => 2

theorem isBefore_of_isWord {op : Operator} (h : op.isWord = true) : op.isBefore = true := by
  cases op <;> first | rfl | cases h

theorem factorial_or_minus_or_word {op : Operator} (h : op.takes 1 = true) :
    op = .factorial ∨ op = .minus ∨ op.isWord = true := by
  cases op <;> first | decide | cases h

theorem sqrt_or_mark {op : Operator} (h : op.takes 2 = true) :
    op = .sqrt ∨ ∃ c, op.symbol.toList = [c] ∧ Operator.ofMark? c = some op := by
  cases op <;> first | exact Or.inl rfl | exact Or.inr ⟨_, rfl, rfl⟩ | cases h

end Operator

/-- An atom as a source can write it, which is not bound. -/
def Atom.Written : Atom → Prop
  | .number n => Decimal.IsDecimal n.text.toList ∧ Decimal.readFloat? n.text = some n.value
  | .symbol s => s.bound = none ∧ s.name ≠ "" ∧ s.name ∉ ["sin", "cos", "tan", "sqrt"] ∧
      ∀ c ∈ s.name.toList, Text.isBlank c = false ∧ Lexeme.isLetter c = true

namespace Expr

def enclosesOnly (op : Operator) (operand : Expr) : Bool :=
  match op, operand with
  | .minus, binary .. => true
  | .factorial, binary .. => true
  | .factorial, unary op' _ => op' ≠ .factorial
  | op, _ => op.isWord

/-- Whether an operand on one side of an operator is put in parentheses. In its own class an
operator needs them on the side to which it does not group. -/
def enclosesBeside (op : Operator) (side : Side) (operand : Expr) : Bool :=
  match operand with
  | binary op' _ _ => op.isWord || op'.tightness < op.tightness ||
      op'.tightness = op.tightness && side = if op = .power then .left else .right
  | _ => op.isWord

def enclose (b : Bool) (text : String) : String := if b then "(" ++ text ++ ")" else text

def print : Expr → String
  | atom a => a.text
  | unary op e =>
    let operand := enclose (enclosesOnly op e) e.print
    if op = .factorial then operand ++ op.symbol else op.symbol ++ operand
  | binary op l r =>
    enclose (enclosesBeside op .left l) l.print ++ op.symbol ++
      enclose (enclosesBeside op .right r) r.print

theorem toList_enclose (b : Bool) (text : String) : (enclose b text).toList =
    if b then '(' :: (text.toList ++ [')']) else text.toList := by
  cases b <;> simp [enclose]

theorem enclosesOnly_of_isWord {op : Operator} (h : op.isWord = true) (e : Expr) :
    enclosesOnly op e = true := by
  cases op <;> first | exact h | exact absurd h (by decide)

theorem enclosesBeside_of_isWord {op : Operator} (h : op.isWord = true) (side : Side) (e : Expr) :
    enclosesBeside op side e = true := by
  cases e <;> simp [enclosesBeside, h]

def level : Expr → Level
  | atom _ => .primary
  | unary op _ => if op = .factorial then .primary else .factor
  | binary op _ _ => op.level?.getD .sum

theorem level_binary {op : Operator} {m : Level} (h : op.level? = some m) (l r : Expr) :
    (binary op l r).level = m := by
  rw [level, h]
  rfl

theorem factor_rank_le_level_unary (op : Operator) (e : Expr) :
    Level.factor.rank ≤ (unary op e).level.rank := by
  rw [level]
  split <;> decide

theorem rank_beside_le_factor {op : Operator} {m : Level} (h : op.level? = some m) (side : Side) :
    (m.beside side).rank ≤ Level.factor.rank := by
  cases side <;> cases op <;> cases h <;> decide

theorem rank_le_of_enclosesBeside {op : Operator} {m : Level} {side : Side} {e : Expr}
    (hop : op.level? = some m) (he : e.WellFormed) (h : enclosesBeside op side e = false) :
    (m.beside side).rank ≤ e.level.rank := by
  have hfactor := rank_beside_le_factor hop side
  cases e with
  | atom a => exact Nat.le_succ_of_le hfactor
  | unary op' e => exact Nat.le_trans hfactor (factor_rank_le_level_unary op' e)
  | binary op' l r =>
    obtain ⟨k, hk⟩ := Operator.exists_level?_of_takes_two he.1
    rw [level_binary hk]
    rw [enclosesBeside] at h
    cases side <;> cases op <;> cases hop <;> cases op' <;> cases hk <;> first
      | decide
      | exact absurd h (by decide)

theorem rank_le_of_enclosesOnly_minus {e : Expr} (h : enclosesOnly .minus e = false) :
    Level.factor.rank ≤ e.level.rank := by
  cases e with
  | atom a => exact Nat.le_succ _
  | unary op' e => exact factor_rank_le_level_unary op' e
  | binary op' l r => exact absurd h (by simp [enclosesOnly])

theorem rank_le_of_enclosesOnly_factorial {e : Expr} (h : enclosesOnly .factorial e = false) :
    Level.primary.rank ≤ e.level.rank := by
  cases e with
  | atom a => exact Nat.le_refl _
  | unary op' e =>
    have hop : op' = .factorial := by simpa [enclosesOnly] using h
    rw [level, if_pos hop]
  | binary op' l r => exact absurd h (by simp [enclosesOnly])

end Expr

end Formula
