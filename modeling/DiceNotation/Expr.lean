import DiceNotation.Value

/-!
Dice expressions, with the two facts that can be read off a tree without rolling it: whether its
value can vary, and how many dice terms it has.
-/
namespace DiceNotation

/-- How tightly an expression holds its parts together, loosest first. -/
inductive Binding where
  | additive
  | multiplicative
  | unary
  | dice
  | value
  deriving DecidableEq, Repr

namespace Binding

def strength : Binding → Nat
  | additive => 0
  | multiplicative => 1
  | unary => 2
  | dice => 3
  | value => 4

def compare (a b : Binding) : Ordering := Ord.compare a.strength b.strength

def isBinary : Binding → Bool
  | additive | multiplicative => true
  | _ => false

end Binding

inductive Expr where
  | num (value : Value)
  /-- The sum of `count` dice with `sides` sides each. -/
  | dice (count sides : Expr)
  | neg (operand : Expr)
  | add (left right : Expr)
  | sub (left right : Expr)
  | mul (left right : Expr)
  /-- The quotient without its fraction. -/
  | div (left right : Expr)
  deriving DecidableEq, Repr, Inhabited

namespace Expr

def binding : Expr → Binding
  | num _ => .value
  | dice _ _ => .dice
  | neg _ => .unary
  | add _ _ | sub _ _ => .additive
  | mul _ _ | div _ _ => .multiplicative

/-- A dice term with a literal count and literal sides. -/
def ofDice (count sides : Value) : Expr := dice (num count) (num sides)

/-- Whether no draw can change what the expression comes to: every dice term rolls a literal zero
dice, or dice with a literal single side. -/
def isDeterministic : Expr → Bool
  | num _ => true
  | dice count sides =>
    (count == num 0 || sides == num 1) && count.isDeterministic && sides.isDeterministic
  | neg operand => operand.isDeterministic
  | add left right | sub left right | mul left right | div left right =>
    left.isDeterministic && right.isDeterministic

/-- The number of dice terms, those inside counts and sides included. -/
def diceTerms : Expr → Nat
  | num _ => 0
  | dice count sides => count.diceTerms + sides.diceTerms + 1
  | neg operand => operand.diceTerms
  | add left right | sub left right | mul left right | div left right =>
    left.diceTerms + right.diceTerms

end Expr

end DiceNotation
