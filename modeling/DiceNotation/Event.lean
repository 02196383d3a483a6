import DiceNotation.Evaluation
import DiceNotation.Expr.Canonical
import DiceNotation.Expr.Parse

/-!
What reading, rolling and sessions note about their work, in the order in which it is done. A list
of events is a journal.
-/
namespace DiceNotation

/-- The kind of work that an event is about. -/
inductive Topic where
  | reading
  | rolling
  | session
  | validation
  deriving DecidableEq, Repr

inductive Event where
  | parsed (text : String) (e : Expr)
  | rejected (text : String) (error : SyntaxError)
  /-- A dice term is complete. -/
  | termRolled (count : Nat) (sides : Value) (rolls : List Value) (sum : Value)
  | evaluated (e : Expr) (evaluation : Evaluation)
  | invalidated (error : SyntaxError)
  | sessionRolled (e : Expr) (evaluation : Evaluation)
  | sessionFailed (e : Expr) (error : EvalError)
  deriving DecidableEq

namespace Event

def topic : Event → Topic
  | parsed _ _ => .reading
  | rejected _ _ => .validation
  | termRolled _ _ _ _ | evaluated _ _ => .rolling
  | invalidated _ | sessionRolled _ _ | sessionFailed _ _ => .session

/-- Whether the event is about a part of a roll only. -/
def isDetail : Event → Bool
  | termRolled _ _ _ _ => true
  | _ => false

def message : Event → String
  | parsed text e => "parsed " ++ Text.quote text ++ " as " ++ e.display
  | rejected text error => "rejected " ++ Text.quote text ++ ": " ++ error.message
  | termRolled count sides rolls sum =>
    "rolled " ++ toString count ++ "d" ++ sides.text ++ ": [" ++ Evaluation.join rolls ++ "] = " ++
      sum.text
  | evaluated e evaluation =>
    "evaluated " ++ e.display ++ " to " ++ evaluation.total.text ++ " with " ++
      toString evaluation.rolls.size ++ " rolls"
  | invalidated error => "engine set to invalid expression: " ++ error.message
  | sessionRolled e evaluation => "engine rolled " ++ e.display ++ ": " ++ evaluation.display
  | sessionFailed e error => "engine failed to roll " ++ e.display ++ ": " ++ error.message

/-- What is noted when a text is read: only that it could be. -/
def ofReading (text : String) : Array Event :=
  match Expr.ofText text with
  | .ok e => #[parsed text e]
  | .error _ => #[]

/-- What is noted when a text is checked. -/
def ofValidation (text : String) : Array Event :=
  match Expr.ofText text with
  | .ok e => #[parsed text e]
  | .error error => #[rejected text error]

end Event

end DiceNotation
