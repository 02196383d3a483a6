import DiceNotation.Value

/-!
The tokens of dice notation, and tokens with the place in a text where they are written. A place is
a number of bytes from the start of the text.
-/
namespace DiceNotation

inductive Token where
  | number (value : Value)
  | dice
  | plus
  | minus
  | star
  | slash
  | lparen
  | rparen
  /-- Stands after the last token of a text. -/
  | stop
  deriving DecidableEq, Repr, Inhabited

namespace Token

/-- What a message calls a token of this kind. -/
def kind : Token → String
  | number _ => "number"
  | dice => "'d'"
  | plus => "'+'"
  | minus => "'-'"
  | star => "'*'"
  | slash => "'/'"
  | lparen => "'('"
  | rparen => "')'"
  | stop => "end of input"

/-- A number by its value, any other token by its kind. -/
def text : Token → String
  | number value => value.text
  | token => token.kind

/-- The token that a single character stands for. -/
def ofChar? : Char → Option Token
  | 'd' | 'D' => some dice
  | '+' => some plus
  | '-' => some minus
  | '*' => some star
  | '/' => some slash
  | '(' => some lparen
  | ')' => some rparen
  | _ => none

end Token

structure Placed where
  token : Token
  position : Nat
  deriving DecidableEq, Repr, Inhabited

end DiceNotation
