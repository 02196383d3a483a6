import DiceNotation.Value

/-!
The outcome of rolling an expression: its total with every die in the order of the draws, or the
fault that ended it.
-/
namespace DiceNotation

structure Evaluation where
  total : Value
  rolls : Array Value
  deriving DecidableEq, Repr

namespace Evaluation

def join (values : List Value) : String := ", ".intercalate (values.map Value.text)

/-- The dice in brackets and the total. With a limit only that many dice are listed, and the number
of the others is given. -/
def describe (limit : Option Nat) (e : Evaluation) : String :=
  let shown := (limit.getD e.rolls.size)
  let hidden := e.rolls.size - shown
  let more := if hidden = 0 then "" else ", " ++ toString hidden ++ " more..."
  "[" ++ join (e.rolls.toList.take shown) ++ more ++ "] = " ++ e.total.text

def display (e : Evaluation) : String := e.describe none

end Evaluation

/-- What is wrong with an expression once its operands are known. -/
inductive EvalError where
  | divisionByZero
  | sidesNotPositive (sides : Value)
  | countNegative (count : Value)
  | overflow
  | tooManyDice (limit : UInt32)
  deriving DecidableEq, Repr

namespace EvalError

def message : EvalError → String
  | divisionByZero => "division by zero"
  | sidesNotPositive sides => "dice must have at least 1 side, not " ++ sides.text
  | countNegative count => "can't roll a negative number of dice (" ++ count.text ++ ")"
  | overflow => "integer overflow"
  | tooManyDice limit => "too many dice rolled (limit is " ++ toString limit.toNat ++ ")"

end EvalError

/-- Why a roll ends without an outcome: a fault of the expression, or a source that ran out. -/
inductive Halt where
  | fault (error : EvalError)
  | exhausted
  deriving DecidableEq, Repr

namespace Halt

def message : Halt → String
  | fault error => error.message
  | exhausted => "iterator is finished"

end Halt

end DiceNotation
