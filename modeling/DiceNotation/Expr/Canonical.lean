import DiceNotation.Expr

/-!
The canonical text of an expression. An operand stands in parentheses only where the text would
otherwise be read as a different tree: dice operands other than plain numbers, negated sums and
products, looser left operands, and right operands that are not tighter.
-/
namespace DiceNotation.Expr

def grouped (group : Bool) (text : String) : String :=
  if group then "(" ++ text ++ ")" else text

/-- Whether the expression can be a count or a number of sides as it is. -/
def standsInDice : Expr → Bool
  | num value => 0 ≤ value.toInt
  | _ => false

/-- Whether the expression can follow a minus sign as it is. A negative literal cannot, since its
own sign would be read as a second negation. -/
def standsNegated : Expr → Bool
  | num value => 0 ≤ value.toInt
  | dice _ _ | neg _ => true
  | _ => false

/-- Whether the expression can be the left operand of an operation of class `b` as it is. -/
def standsLeft (b : Binding) (e : Expr) : Bool := b.strength ≤ e.binding.strength

/-- Whether the expression can be the right operand of an operation of class `b` as it is. -/
def standsRight (b : Binding) (e : Expr) : Bool := b.strength < e.binding.strength

def display : Expr → String
  | num value => value.text
  | dice count sides =>
    grouped (!count.standsInDice) count.display ++ "d" ++
      grouped (!sides.standsInDice) sides.display
  | neg operand => "-" ++ grouped (!operand.standsNegated) operand.display
  | add left right =>
    grouped (!left.standsLeft .additive) left.display ++ " + " ++
      grouped (!right.standsRight .additive) right.display
  | sub left right =>
    grouped (!left.standsLeft .additive) left.display ++ " - " ++
      grouped (!right.standsRight .additive) right.display
  | mul left right =>
    grouped (!left.standsLeft .multiplicative) left.display ++ " * " ++
      grouped (!right.standsRight .multiplicative) right.display
  | div left right =>
    grouped (!left.standsLeft .multiplicative) left.display ++ " / " ++
      grouped (!right.standsRight .multiplicative) right.display

end DiceNotation.Expr
