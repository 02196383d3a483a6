import DiceNotation.Expr
import DiceNotation.Expr.ParseError

/-!
Reading an expression from tokens, by one reader for each level of the notation:

    sum     := product (('+' | '-') product)*
    product := unary (('*' | '/') unary)*
    unary   := '-' unary | dice
    dice    := atom ('d' atom)? | 'd' atom
    atom    := number | '(' sum ')'

A reader is given the number of levels that may still be opened. A parenthesis, a negation and each
operator of a chain open one, and what they hold is read with one level less. So the levels alone
bound how deep the readers call each other, whatever the tokens are.
-/
namespace DiceNotation

/-- The operation of a token that can continue a sum. -/
def Token.additive? : Token → Option (Expr → Expr → Expr)
  | .plus => some .add
  | .minus => some .sub
  | _ => none

/-- The operation of a token that can continue a product. -/
def Token.multiplicative? : Token → Option (Expr → Expr → Expr)
  | .star => some .mul
  | .slash => some .div
  | _ => none

namespace Reader

inductive Reason where
  | unexpected (expected : List Expected)
  | tooDeep
  deriving DecidableEq, Repr

/-- Why a reader stops, and the tokens it stops in front of. -/
structure Refusal where
  reason : Reason
  rest : List Placed
  deriving DecidableEq, Repr

/-- An expression with the tokens behind it, or a refusal. -/
abbrev Reading := Except Refusal (Expr × List Placed)

mutual

def sum (levels : Nat) (ts : List Placed) : Reading :=
  match product levels ts with
  | .error refusal => .error refusal
  | .ok (left, rest) => sumTail levels left rest
termination_by 6 * levels + 5

/-- The operators of a sum and their right operands, behind a left operand that is already read. -/
def sumTail (levels : Nat) (left : Expr) (ts : List Placed) : Reading :=
  match ts with
  | [] => .ok (left, [])
  | t :: rest =>
    match t.token.additive? with
    | none => .ok (left, t :: rest)
    | some operation =>
      match levels with
      | 0 => .error ⟨.tooDeep, t :: rest⟩
      | inner + 1 =>
        match product inner rest with
        | .error refusal => .error refusal
        | .ok (right, rest) => sumTail inner (operation left right) rest
termination_by 6 * levels

def product (levels : Nat) (ts : List Placed) : Reading :=
  match unary levels ts with
  | .error refusal => .error refusal
  | .ok (left, rest) => productTail levels left rest
termination_by 6 * levels + 4

/-- The operators of a product and their right operands, behind a left operand that is already
read. -/
def productTail (levels : Nat) (left : Expr) (ts : List Placed) : Reading :=
  match ts with
  | [] => .ok (left, [])
  | t :: rest =>
    match t.token.multiplicative? with
    | none => .ok (left, t :: rest)
    | some operation =>
      match levels with
      | 0 => .error ⟨.tooDeep, t :: rest⟩
      | inner + 1 =>
        match unary inner rest with
        | .error refusal => .error refusal
        | .ok (right, rest) => productTail inner (operation left right) rest
termination_by 6 * levels

def unary (levels : Nat) (ts : List Placed) : Reading :=
  match ts with
  | ⟨.minus, _⟩ :: rest =>
    match levels with
    | 0 => .error ⟨.tooDeep, rest⟩
    | inner + 1 =>
      match unary inner rest with
      | .error refusal => .error refusal
      | .ok (operand, rest) => .ok (.neg operand, rest)
  | ts => dice levels ts
termination_by 6 * levels + 3

/-- Dice without a count are one die. -/
def dice (levels : Nat) (ts : List Placed) : Reading :=
  match ts with
  | ⟨.dice, _⟩ :: rest => sides levels (.num 1) rest
  | ts =>
    match atom levels Expected.expression ts with
    | .error refusal => .error refusal
    | .ok (count, ⟨.dice, _⟩ :: rest) => sides levels count rest
    | .ok (alone, rest) => .ok (alone, rest)
termination_by 6 * levels + 2

/-- The sides of dice, behind a count that is already read. -/
def sides (levels : Nat) (count : Expr) (ts : List Placed) : Reading :=
  match atom levels Expected.sides ts with
  | .error refusal => .error refusal
  | .ok (sides, rest) => .ok (.dice count sides, rest)
termination_by 6 * levels + 1

/-- A number or a sum in parentheses; `expected` is what may stand here. -/
def atom (levels : Nat) (expected : List Expected) (ts : List Placed) : Reading :=
  match ts with
  | ⟨.number value, _⟩ :: rest => .ok (.num value, rest)
  | ⟨.lparen, _⟩ :: rest =>
    match levels with
    | 0 => .error ⟨.tooDeep, rest⟩
    | inner + 1 =>
      match sum inner rest with
      | .error refusal => .error refusal
      | .ok (inside, ⟨.rparen, _⟩ :: rest) => .ok (inside, rest)
      | .ok (_, rest) => .error ⟨.unexpected [.operator, .rparen], rest⟩
  | ts => .error ⟨.unexpected expected, ts⟩
termination_by 6 * levels

end

end Reader

/-- The token in front of `rest`, a tail of `ts`. Behind the last token stands `Token.stop`, at the
place of that token. -/
def Placed.next (ts rest : List Placed) : Placed :=
  rest.headD ⟨.stop, ((ts.getLast?.map Placed.position).getD 0)⟩

namespace Reader.Refusal

/-- The refusal as an error of the whole list `ts`, at the token that the reader stopped at. -/
def toError (ts : List Placed) (refusal : Refusal) : ParseError :=
  let next := Placed.next ts refusal.rest
  match refusal.reason with
  | .unexpected expected => ⟨.unexpected next.token expected, next.position⟩
  | .tooDeep => ⟨.tooDeep, next.position⟩

end Reader.Refusal

namespace Expr

/-- The expression that a list of tokens forms as a whole. Tokens behind the first `Token.stop` do
not count, and that token may be missing. -/
def parse (ts : List Placed) : Except ParseError Expr :=
  match Reader.sum maxDepth ts with
  | .error refusal => .error (refusal.toError ts)
  | .ok (e, rest) =>
    if (Placed.next ts rest).token = .stop then .ok e
    else .error (Reader.Refusal.toError ts ⟨.unexpected [.operator, .stop], rest⟩)

/-- The expression that a text is written for. -/
def ofText (text : String) : Except SyntaxError Expr :=
  match tokenize text with
  | .error e => .error (.lex e)
  | .ok ts =>
    match parse ts with
    | .error e => .error (.parse e)
    | .ok e => .ok e

/-- Whether a text is an expression, found without rolling it. -/
def validate (text : String) : Except SyntaxError Unit := (ofText text).map fun _ => ()

end Expr

end DiceNotation
