import Formula.Proofs.Climbing.Rest

namespace Formula

inductive Level where
  | sum | product | power | factor | primary
deriving DecidableEq

/-- The kinds of tokens that are read as a tree at a level: sums of products of powers of factors,
where a factor is a primary behind operators, and a primary is an atom or a parenthesis with
factorials behind it. -/
inductive Derives : Level → List Token.Kind → Expr → Prop
  | sumOfProduct {ks : List Token.Kind} {e : Expr} (h : Derives .product ks e) :
      Derives .sum ks e
  | sum {op : Operator} {ks ks' : List Token.Kind} {l r : Expr} (hop : op ∈ [.plus, .minus])
      (hl : Derives .sum ks l) (hr : Derives .product ks' r) :
      Derives .sum (ks ++ .operator op :: ks') (.binary op l r)
  | productOfPower {ks : List Token.Kind} {e : Expr} (h : Derives .power ks e) :
      Derives .product ks e
  | product {op : Operator} {ks ks' : List Token.Kind} {l r : Expr} (hop : op ∈ [.times, .divide])
      (hl : Derives .product ks l) (hr : Derives .power ks' r) :
      Derives .product (ks ++ .operator op :: ks') (.binary op l r)
  | powerOfFactor {ks : List Token.Kind} {e : Expr} (h : Derives .factor ks e) :
      Derives .power ks e
  | power {op : Operator} {ks ks' : List Token.Kind} {l r : Expr} (hop : op ∈ [.power, .sqrt])
      (hl : Derives .factor ks l) (hr : Derives .power ks' r) :
      Derives .power (ks ++ .operator op :: ks') (.binary op l r)
  | factorOfPrimary {ks : List Token.Kind} {e : Expr} (h : Derives .primary ks e) :
      Derives .factor ks e
  | before {op : Operator} {ks : List Token.Kind} {e : Expr}
      (hop : op ∈ [.minus, .sin, .cos, .tan, .sqrt]) (h : Derives .factor ks e) :
      Derives .factor (.operator op :: ks) (.unary op e)
  | after {ks : List Token.Kind} {e : Expr} (h : Derives .primary ks e) :
      Derives .primary (ks ++ [.operator .factorial]) (.unary .factorial e)
  | number (n : Number) : Derives .primary [.number n] (.atom (.number n))
  | symbol (s : Symbol) : Derives .primary [.symbol s] (.atom (.symbol s))
  | group {ks : List Token.Kind} {e : Expr} (h : Derives .sum ks e) :
      Derives .primary (.operator .openParen :: (ks ++ [.operator .closeParen])) e

namespace Level

def rank : Level → Nat
  | sum => 0
  | product => 1
  | power => 2
  | factor => 3
  | primary => 4

def left : Level → Level
  | power => factor
  | l => l

def right : Level → Level
  | sum => product
  | product => power
  | l => l

/-- The least power with which the reader reads a level. Powers are read with two of them: as the
right operand of a product, and as that of a power. -/
inductive Threshold : Level → Float → Prop
  | sum : Threshold sum 0.0
  | product : Threshold product 1.1
  | power : Threshold power 2.1
  | powerRight : Threshold power 3.0
  | factor : Threshold factor Operator.unaryPower

theorem Threshold.rank_le {l : Level} {least : Float} (h : l.Threshold least) :
    l.rank ≤ Level.factor.rank := by
  cases h <;> decide

theorem rank_le_left (m : Level) : m.rank ≤ m.left.rank := by
  cases m <;> decide

theorem rank_le_right (m : Level) : m.rank ≤ m.right.rank := by
  cases m <;> decide

theorem left_rank_le_of_lt_right {k l : Level} (h : k.rank < l.right.rank) :
    k.left.rank ≤ l.rank := by
  cases k <;> cases l <;> revert h <;> decide

theorem rank_lt_right {k m : Level} (hm : m.rank < Level.factor.rank) (h : k.left.rank ≤ m.rank) :
    k.rank < m.right.rank := by
  cases m <;> cases k <;> revert hm h <;> decide

end Level

namespace Operator

def level? : Operator → Option Level
  | plus | minus => some .sum
  | times | divide => some .product
  | power | sqrt => some .power
  | _ => none

theorem rank_lt_factor {op : Operator} {l : Level} (h : op.level? = some l) :
    l.rank < Level.factor.rank := by
  cases op <;> cases h <;> decide

theorem takes_two_of_level? {op : Operator} {l : Level} (h : op.level? = some l) :
    op.takes 2 = true := by
  cases op <;> first | rfl | cases h

theorem exists_level?_of_takes_two {op : Operator} (h : op.takes 2 = true) :
    ∃ l, op.level? = some l := by
  cases op <;> first | exact ⟨_, rfl⟩ | cases h

/-- An operator is left out where the level asks for a higher one. -/
theorem left_lt_iff {op : Operator} {p : BindingPower} {l m : Level} {least : Float}
    (hl : op.level? = some l) (hp : op.power? = some p) (hm : m.Threshold least) :
    p.left < least ↔ l.rank < m.rank := by
  cases op <;> cases hl <;> cases hp <;> cases hm <;> decide

theorem threshold_right {op : Operator} {p : BindingPower} {l : Level} (hl : op.level? = some l)
    (hp : op.power? = some p) : l.right.Threshold p.right := by
  cases op <;> cases hl <;> cases hp <;> constructor

theorem exists_power?_of_level? {op : Operator} {l : Level} (h : op.level? = some l) :
    ∃ p, op.power? = some p := by
  cases op <;> first | exact ⟨_, rfl⟩ | cases h

end Operator

namespace Derives

theorem mono {l m : Level} {ks : List Token.Kind} {e : Expr} (h : Derives m ks e)
    (hle : l.rank ≤ m.rank) : Derives l ks e := by
  cases l <;> cases m <;> first
    | exact h
    | exact absurd hle (by decide)
    | skip
  · exact h.sumOfProduct
  · exact h.productOfPower.sumOfProduct
  · exact h.powerOfFactor.productOfPower.sumOfProduct
  · exact h.factorOfPrimary.powerOfFactor.productOfPower.sumOfProduct
  · exact h.productOfPower
  · exact h.powerOfFactor.productOfPower
  · exact h.factorOfPrimary.powerOfFactor.productOfPower
  · exact h.powerOfFactor
  · exact h.factorOfPrimary.powerOfFactor
  · exact h.factorOfPrimary

/-- The three rules for an operator between two operands are one. -/
theorem between {op : Operator} {m : Level} {ks ks' : List Token.Kind} {l r : Expr}
    (hop : op.level? = some m) (hl : Derives m.left ks l) (hr : Derives m.right ks' r) :
    Derives m (ks ++ .operator op :: ks') (.binary op l r) := by
  cases op <;> cases hop
  · exact .sum (by decide) hl hr
  · exact .sum (by decide) hl hr
  · exact .product (by decide) hl hr
  · exact .product (by decide) hl hr
  · exact .power (by decide) hl hr
  · exact .power (by decide) hl hr

theorem before_of_isBefore {op : Operator} {ks : List Token.Kind} {e : Expr}
    (hop : op.isBefore = true) (h : Derives .factor ks e) :
    Derives .factor (.operator op :: ks) (.unary op e) := by
  refine .before ?_ h
  cases op <;> first | decide | cases hop

end Derives

end Formula
