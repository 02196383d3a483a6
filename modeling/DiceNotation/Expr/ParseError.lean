import DiceNotation.Token.Scan

/-!
Why a text is no dice expression, and how a message tells it.
-/
namespace DiceNotation

/-- The levels an expression may be deep. Parentheses, negations and each operator of a chain are
one level. -/
def maxDepth : Nat := 256

/-- What could have stood in place of an unexpected token. -/
inductive Expected where
  | number
  | dice
  | minus
  | lparen
  | rparen
  | operator
  | stop
  deriving DecidableEq, Repr

namespace Expected

def text : Expected → String
  | number => "number"
  | dice => "'d'"
  | minus => "'-'"
  | lparen => "'('"
  | rparen => "')'"
  | operator => "operator"
  | stop => "end of input"

/-- Everything an expression can start with. -/
def expression : List Expected := [number, dice, minus, lparen]

/-- Everything the sides of dice can start with. -/
def sides : List Expected := [number, lparen]

/-- The end of a list of three or more alternatives. -/
def listed : List Expected → String
  | [] => ""
  | [last] => "or " ++ last.text
  | first :: rest => first.text ++ ", " ++ listed rest

/-- Alternatives as a phrase: `a`, `a or b`, or `a, b, or c`. -/
def phrase : List Expected → String
  | [] => ""
  | [a] => a.text
  | [a, b] => a.text ++ " or " ++ b.text
  | alternatives => listed alternatives

end Expected

/-- What is wrong at the place of a parse error. -/
inductive Fault where
  | unexpected (found : Token) (expected : List Expected)
  | tooDeep
  deriving DecidableEq, Repr

namespace Fault

def message : Fault → String
  | unexpected found expected =>
    "unexpected " ++ found.kind ++ ", expected " ++ Expected.phrase expected
  | tooDeep => "expression is more than " ++ toString maxDepth ++ " levels deep"

end Fault

structure ParseError where
  fault : Fault
  position : Nat
  deriving DecidableEq, Repr

namespace ParseError

def message (e : ParseError) : String :=
  "error at position " ++ toString e.position ++ ": " ++ e.fault.message

end ParseError

/-- Why a text could not be read as an expression: its characters form no tokens, or its tokens
form no expression. -/
inductive SyntaxError where
  | lex (error : LexError)
  | parse (error : ParseError)
  deriving DecidableEq, Repr

namespace SyntaxError

def position : SyntaxError → Nat
  | lex error => error.position
  | parse error => error.position

def message : SyntaxError → String
  | lex error => "lex error: " ++ error.message
  | parse error => "parse error: " ++ error.message

end SyntaxError

end DiceNotation
