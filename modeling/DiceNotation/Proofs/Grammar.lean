import DiceNotation.Expr.Parse

/-!
The notation as a grammar over tokens, apart from any way of reading it:

    sum     := product (('+' | '-') product)*
    product := unary (('*' | '/') unary)*
    unary   := '-' unary | dice
    dice    := atom ('d' atom)? | 'd' atom
    atom    := number | '(' sum ')'

A derivation carries the tree that it stands for, with chains grouped from the left, and a depth
charge. A group or a negation charges one level for what it holds. In a chain the operand behind
the i-th operator is charged i levels, and the first operand none.
-/
namespace DiceNotation

/-- The kinds of phrases. Sums and products are told apart by how many operators their chain has. -/
inductive Phrase where
  | atom
  | dice
  | unary
  | product (operators : Nat)
  | sum (operators : Nat)
  deriving DecidableEq, Repr

/-- The operators between the terms of a sum, with what they make of two trees. -/
inductive Token.JoinsTerms : Token → (Expr → Expr → Expr) → Prop
  | plus : JoinsTerms .plus .add
  | minus : JoinsTerms .minus .sub

/-- The operators between the factors of a product. -/
inductive Token.JoinsFactors : Token → (Expr → Expr → Expr) → Prop
  | star : JoinsFactors .star .mul
  | slash : JoinsFactors .slash .div

/-- `Derives p w e c`: the tokens `w` are a phrase of kind `p`, for the tree `e`, and the charge of
the derivation is `c`. -/
inductive Derives : Phrase → List Token → Expr → Nat → Prop
  | number (v : Value) : Derives .atom [.number v] (.num v) 0
  | group {n w e c} (inside : Derives (.sum n) w e c) :
      Derives .atom (.lparen :: (w ++ [.rparen])) e (c + 1)
  | alone {w e c} (atom : Derives .atom w e c) : Derives .dice w e c
  | dice {w₁ w₂ e₁ e₂ c₁ c₂} (count : Derives .atom w₁ e₁ c₁) (sides : Derives .atom w₂ e₂ c₂) :
      Derives .dice (w₁ ++ .dice :: w₂) (.dice e₁ e₂) (max c₁ c₂)
  | die {w e c} (sides : Derives .atom w e c) :
      Derives .dice (.dice :: w) (.dice (.num 1) e) c
  | plain {w e c} (dice : Derives .dice w e c) : Derives .unary w e c
  | negation {w e c} (operand : Derives .unary w e c) :
      Derives .unary (.minus :: w) (.neg e) (c + 1)
  | factor {w e c} (unary : Derives .unary w e c) : Derives (.product 0) w e c
  | times {n w₁ w₂ e₁ e₂ c₁ c₂ t f} (left : Derives (.product n) w₁ e₁ c₁)
      (operator : Token.JoinsFactors t f) (right : Derives .unary w₂ e₂ c₂) :
      Derives (.product (n + 1)) (w₁ ++ t :: w₂) (f e₁ e₂) (max c₁ (n + 1 + c₂))
  | term {n w e c} (product : Derives (.product n) w e c) : Derives (.sum 0) w e c
  | plus {n m w₁ w₂ e₁ e₂ c₁ c₂ t f} (left : Derives (.sum n) w₁ e₁ c₁)
      (operator : Token.JoinsTerms t f) (right : Derives (.product m) w₂ e₂ c₂) :
      Derives (.sum (n + 1)) (w₁ ++ t :: w₂) (f e₁ e₂) (max c₁ (n + 1 + c₂))

/-- The tokens `w` form a whole expression: the tree `e`, at the charge `c`. -/
def Forms (w : List Token) (e : Expr) (c : Nat) : Prop := ∃ n, Derives (.sum n) w e c

theorem Token.additive?_eq_some_iff {t : Token} {f : Expr → Expr → Expr} :
    t.additive? = some f ↔ JoinsTerms t f := by
  constructor
  · intro h
    cases t <;> simp only [additive?, Option.some.injEq, reduceCtorEq] at h
    · exact h ▸ .plus
    · exact h ▸ .minus
  · rintro (_ | _) <;> rfl

theorem Token.multiplicative?_eq_some_iff {t : Token} {f : Expr → Expr → Expr} :
    t.multiplicative? = some f ↔ JoinsFactors t f := by
  constructor
  · intro h
    cases t <;> simp only [multiplicative?, Option.some.injEq, reduceCtorEq] at h
    · exact h ▸ .star
    · exact h ▸ .slash
  · rintro (_ | _) <;> rfl

namespace Derives

/-- The last operator of a chain is charged to the operand behind it, with all others. -/
theorem product_operators_le {n w e c} (h : Derives (.product n) w e c) : n ≤ c := by
  cases h with
  | factor unary => exact Nat.zero_le c
  | times left operator right => omega

theorem sum_operators_le {n w e c} (h : Derives (.sum n) w e c) : n ≤ c := by
  cases h with
  | term product => exact Nat.zero_le c
  | plus left operator right => omega

/-- The token that ends a text is part of no phrase. -/
theorem stop_notMem {p w e c} (h : Derives p w e c) : Token.stop ∉ w := by
  induction h with
  | number | group | alone | dice | die | plain | negation | factor | term => simp_all
  | times _ operator _ _ _ => cases operator <;> simp_all
  | plus _ operator _ _ _ => cases operator <;> simp_all

theorem ne_nil {p w e c} (h : Derives p w e c) : w ≠ [] := by
  induction h <;> simp_all

end Derives

end DiceNotation
