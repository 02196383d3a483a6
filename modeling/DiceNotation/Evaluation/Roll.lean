import DiceNotation.Event
import DiceNotation.Source

/-!
Rolling an expression. Operands are rolled from left to right and before the operation on them, so
the same draws always give the same outcome. A roll that halts keeps what it has drawn so far.
-/
namespace DiceNotation

/-- A roll under way: the source, the dice drawn so far in order, and what is noted. -/
structure Run (σ : Type) where
  source : σ
  rolls : Array Value
  journal : Array Event

abbrev Rolling (σ : Type) := EStateM Halt (Run σ)

namespace Rolling

variable {σ : Type} [Source σ]

def inRange : Option Value → Rolling σ Value
  | some value => pure value
  | none => throw (.fault .overflow)

/-- One die. It is drawn even if the sum it is for leaves the range. -/
def die (sides : Value) : Rolling σ Value := fun run =>
  match Source.draw 1 sides run.source with
  | (some value, source) => .ok value { run with source, rolls := run.rolls.push value }
  | (none, source) => .error .exhausted { run with source }

/-- The given number of dice, added one by one to a sum. -/
def dice (sides : Value) : Nat → Value → Rolling σ Value
  | 0, sum => pure sum
  | count + 1, sum => do
    let value ← die sides
    let sum ← inRange (sum.add? value)
    dice sides count sum

/-- The limit that a further `count` dice would pass. Numbers of dice are counted up to the largest
limit there is, so that one is never passed. -/
def passedLimit? (ceiling : Option UInt32) (rolled count : Nat) : Option UInt32 :=
  ceiling.filter fun limit => limit.toNat < min (rolled + count) (UInt32.size - 1)

/-- A dice term with known count and sides. All that can be wrong with these is found before the
first die. -/
def term (ceiling : Option UInt32) (count sides : Value) : Rolling σ Value := do
  if sides.toInt < 1 then throw (.fault (.sidesNotPositive sides))
  else if count.toInt < 0 then throw (.fault (.countNegative count))
  else
    let before := (← get).rolls.size
    match passedLimit? ceiling before count.toInt.toNat with
    | some limit => throw (.fault (.tooManyDice limit))
    | none =>
      let sum ← dice sides count.toInt.toNat 0
      modify fun run =>
        let drawn := (run.rolls.extract before run.rolls.size).toList
        { run with journal := run.journal.push (.termRolled count.toInt.toNat sides drawn sum) }
      return sum

end Rolling

namespace Expr

variable {σ : Type} [Source σ]

/-- The value of an expression under a ceiling on the number of all dice of the roll. -/
def roll (ceiling : Option UInt32) : Expr → Rolling σ Value
  | num value => pure value
  | dice count sides => do
    let count ← count.roll ceiling
    let sides ← sides.roll ceiling
    Rolling.term ceiling count sides
  | neg operand => do
    let x ← operand.roll ceiling
    Rolling.inRange x.neg?
  | add left right => do
    let x ← left.roll ceiling
    let y ← right.roll ceiling
    Rolling.inRange (x.add? y)
  | sub left right => do
    let x ← left.roll ceiling
    let y ← right.roll ceiling
    Rolling.inRange (x.sub? y)
  | mul left right => do
    let x ← left.roll ceiling
    let y ← right.roll ceiling
    Rolling.inRange (x.mul? y)
  | div left right => do
    let x ← left.roll ceiling
    let y ← right.roll ceiling
    if y = 0 then throw (.fault .divisionByZero) else Rolling.inRange (x.div? y)

end Expr

/-- Rolls expressions one after the other from one source. The ceiling holds for each roll on its
own. -/
structure Roller (σ : Type) where
  source : σ
  ceiling : Option UInt32
  journal : Array Event

namespace Roller

variable {σ : Type} [Source σ]

def evaluate (e : Expr) (roller : Roller σ) : Except Halt Evaluation × Roller σ :=
  match e.roll roller.ceiling ⟨roller.source, #[], roller.journal⟩ with
  | .ok total run =>
    let evaluation := ⟨total, run.rolls⟩
    (.ok evaluation,
      { roller with source := run.source, journal := run.journal.push (.evaluated e evaluation) })
  | .error halt run => (.error halt, { roller with source := run.source, journal := run.journal })

end Roller

end DiceNotation
