import DiceNotation.Evaluation
import DiceNotation.Expr

/-!
Expressions over the integers, where every operation has a result, with the dice shown by a stream.
An evaluation goes from left to right and through operands first, and notes each of its steps. The
steps that a roll of 32-bit values does not get past are the illegal ones.
-/
namespace DiceNotation

namespace Exact

/-- The integers that are values. -/
def InRange (i : Int) : Prop := -2147483648 ≤ i ∧ i < 2147483648

/-- A step of an evaluation, with the integers that it is about. -/
inductive Step where
  | literal (i : Int)
  | neg (x : Int)
  | add (x y : Int)
  | sub (x y : Int)
  | mul (x y : Int)
  | div (x y : Int)
  /-- A dice term before its first die, after `rolled` dice of terms before it. -/
  | term (rolled : Nat) (count sides : Int)
  /-- A die, added to the sum of the dice before it in its term. -/
  | die (sum shown : Int)

namespace Step

/-- The value of a node or a partial sum of a dice term. A term without a die yet has the sum 0. -/
def result : Step → Int
  | literal i => i
  | neg x => -x
  | add x y => x + y
  | sub x y => x - y
  | mul x y => x * y
  | div x y => x.tdiv y
  | term _ _ _ => 0
  | die sum shown => sum + shown

def isDie : Step → Bool
  | die _ _ => true
  | _ => false

/-- What is wrong with a step. The faults of a dice term exclude each other in this order. -/
inductive Illegal (ceiling : Option UInt32) : Step → EvalError → Prop
  | divisor (x : Int) : Illegal ceiling (div x 0) .divisionByZero
  | sides {rolled : Nat} {count s : Int} (sides : Value) (hsides : sides.toInt = s) (h : s < 1) :
    Illegal ceiling (term rolled count s) (.sidesNotPositive sides)
  | count {rolled : Nat} {c sides : Int} (count : Value) (hcount : count.toInt = c)
    (hsides : 1 ≤ sides) (h : c < 0) : Illegal ceiling (term rolled c sides) (.countNegative count)
  | limit {rolled : Nat} {count sides : Int} (limit : UInt32) (hceiling : ceiling = some limit)
    (hsides : 1 ≤ sides) (hcount : 0 ≤ count)
    (h : limit.toNat < min (rolled + count) 4294967295) :
    Illegal ceiling (term rolled count sides) (.tooManyDice limit)
  | negation {x : Int} (h : ¬InRange (-x)) : Illegal ceiling (neg x) .overflow
  | sum {x y : Int} (h : ¬InRange (x + y)) : Illegal ceiling (add x y) .overflow
  | difference {x y : Int} (h : ¬InRange (x - y)) : Illegal ceiling (sub x y) .overflow
  | product {x y : Int} (h : ¬InRange (x * y)) : Illegal ceiling (mul x y) .overflow
  | quotient : Illegal ceiling (div (-2147483648) (-1)) .overflow
  | partialSum {sum shown : Int} (h : ¬InRange (sum + shown)) :
    Illegal ceiling (die sum shown) .overflow

def Legal (ceiling : Option UInt32) (step : Step) : Prop := ∀ error, ¬step.Illegal ceiling error

variable {ceiling : Option UInt32} {step : Step} {error error' : EvalError}

/-- A step has one fault at most. -/
theorem Illegal.unique (h : step.Illegal ceiling error) (h' : step.Illegal ceiling error') :
    error' = error := by
  cases h with
  | divisor x =>
    cases h'
    rfl
  | sides sides hsides h =>
    cases h' with
    | sides sides' hsides' h' => rw [Int32.toInt_inj.mp (hsides'.trans hsides.symm)]
    | count count hcount hsides' h' => omega
    | limit limit hceiling hsides' hcount h' => omega
  | count count hcount hsides h =>
    cases h' with
    | sides sides' hsides' h' => omega
    | count count' hcount' hsides' h' => rw [Int32.toInt_inj.mp (hcount'.trans hcount.symm)]
    | limit limit hceiling hsides' hcount h' => omega
  | limit limit hceiling hsides hcount h =>
    cases h' with
    | sides sides' hsides' h' => omega
    | count count' hcount' hsides' h' => omega
    | limit limit' hceiling' hsides' hcount' h' =>
      rw [Option.some.inj (hceiling'.symm.trans hceiling)]
  | quotient =>
    cases h'
    rfl
  | negation h | sum h | difference h | product h | partialSum h =>
    cases h'
    rfl

end Step

/-- The number of dice among some steps. -/
def rolledIn (steps : List Step) : Nat := steps.countP Step.isDie

/-- A part of an evaluation. It adds its steps to those before it. -/
abbrev Reckoning := StateM (List Step)

namespace Reckoning

def value (x : Reckoning Int) (before : List Step) : Int := (x before).1

def steps (x : Reckoning Int) (before : List Step) : List Step := (x before).2

def take (step : Step) : Reckoning Int := do
  modify (· ++ [step])
  return step.result

/-- The die that comes next in the stream, added to a sum. -/
def die (stream : Nat → Int) (sum : Int) : Reckoning Int := do
  take (.die sum (stream (rolledIn (← get))))

def dice (stream : Nat → Int) : Nat → Int → Reckoning Int
  | 0, sum => return sum
  | count + 1, sum => do dice stream count (← die stream sum)

/-- A dice term. With a negative count, which is illegal, it has no dice. -/
def term (stream : Nat → Int) (count sides : Int) : Reckoning Int := do
  let sum ← take (.term (rolledIn (← get)) count sides)
  dice stream count.toNat sum

end Reckoning

end Exact

namespace Exact

variable {x : Reckoning Int} {f : Int → Reckoning Int} {before : List Step}

namespace Reckoning

theorem value_bind : (x >>= f).value before = (f (x.value before)).value (x.steps before) := rfl

theorem steps_bind : (x >>= f).steps before = (f (x.value before)).steps (x.steps before) := rfl

/-- Steps are only added. -/
def Grows (x : Reckoning Int) : Prop := ∀ before, before <+: x.steps before

theorem Grows.bind (first : Grows x) (next : ∀ i, Grows (f i)) : Grows (x >>= f) := by
  intro before
  rw [steps_bind]
  exact (first before).trans (next _ _)

theorem Grows.operands {x y : Reckoning Int} {f : Int → Int → Reckoning Int} (left : Grows x)
    (right : Grows y) (last : ∀ i j, Grows (f i j)) : Grows (do f (← x) (← y)) :=
  left.bind fun i => right.bind fun j => last i j

end Reckoning

end Exact

end DiceNotation
