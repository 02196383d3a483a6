import DiceNotation.Session

/-!
The full contents of a session as one line of text, constructor by constructor. A record is written
with its fields in braces, a sum with its arguments in parentheses. The source is left out.
-/
namespace DiceNotation

namespace Inspect

def record (name : String) (fields : List (String × String)) : String :=
  name ++ " \x7b " ++ ", ".intercalate (fields.map fun f => f.1 ++ ": " ++ f.2) ++ " \x7d"

def variant (name : String) (arguments : List String) : String :=
  name ++ "(" ++ ", ".intercalate arguments ++ ")"

def list (items : List String) : String := "[" ++ ", ".intercalate items ++ "]"

def option : Option String → String
  | none => "None"
  | some text => variant "Some" [text]

end Inspect

open Inspect

def Expr.inspect : Expr → String
  | num value => variant "Num" [value.text]
  | dice count sides => record "Dice" [("count", count.inspect), ("sides", sides.inspect)]
  | neg operand => variant "Neg" [operand.inspect]
  | add left right => variant "Add" [left.inspect, right.inspect]
  | sub left right => variant "Sub" [left.inspect, right.inspect]
  | mul left right => variant "Mul" [left.inspect, right.inspect]
  | div left right => variant "Div" [left.inspect, right.inspect]

def Token.inspect : Token → String
  | number value => variant "Number" [value.text]
  | dice => "Dice"
  | plus => "Plus"
  | minus => "Minus"
  | star => "Star"
  | slash => "Slash"
  | lparen => "LParen"
  | rparen => "RParen"
  | stop => "End"

def Expected.inspect : Expected → String
  | number => "Number"
  | dice => "Dice"
  | minus => "Minus"
  | lparen => "LParen"
  | rparen => "RParen"
  | operator => "Operator"
  | stop => "End"

def Evaluation.inspect (e : Evaluation) : String :=
  record "Evaluation" [("total", e.total.text), ("rolls", list (e.rolls.toList.map Value.text))]

def LexError.inspect : LexError → String
  | unexpectedChar position found =>
    record "UnexpectedChar" [("position", toString position), ("found", Text.quoteChar found)]
  | numberTooLarge position => record "NumberTooLarge" [("position", toString position)]

def Fault.inspect : Fault → String
  | unexpected found expected =>
    record "UnexpectedToken"
      [("found", found.inspect), ("expected", list (expected.map Expected.inspect))]
  | tooDeep => "TooDeep"

def ParseError.inspect (e : ParseError) : String :=
  record "ParseError" [("kind", e.fault.inspect), ("position", toString e.position)]

def SyntaxError.inspect : SyntaxError → String
  | lex error => variant "Lex" [error.inspect]
  | parse error => variant "Parse" [error.inspect]

namespace Session

def State.inspect : State → String
  | empty => "Empty"
  | parsed e => variant "Parsed" [e.inspect]
  | evaluated e evaluation => variant "Evaluated" [e.inspect, evaluation.inspect]
  | invalid error => variant "Invalid" [error.inspect]

def inspect {σ : Type} (s : Session σ) : String :=
  "Engine \x7b text: " ++ option (s.text.map Text.quote) ++ ", state: " ++ s.state.inspect ++
    ", max_dice: " ++ option (s.ceiling.map fun limit => toString limit.toNat) ++ ", .. \x7d"

end Session

end DiceNotation
