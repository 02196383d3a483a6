import DiceNotation.Value

/-!
A seeded generator of words, and the draw of a value from a range with every value equally likely.
The generator counts through all 64-bit states in equal steps and scrambles each state into a word.
A draw spreads the words over the range and passes over the few that would favour some values; it
ends because the states include one whose word no range passes over.
-/
namespace DiceNotation

structure Generator where
  counter : UInt64
  deriving DecidableEq, Repr

namespace Generator

/-- The step from one state to the next. It is odd, so the steps reach every state. -/
def increment : UInt64 := 0x2d358dccaa6c78a5

def mixer : UInt64 := 0x8bb84b93962eacc9

/-- The two halves of the product of a state with its mixed form, laid over each other. -/
def scramble (counter : UInt64) : UInt64 :=
  let product := counter.toNat * (counter ^^^ mixer).toNat
  UInt64.ofNat product ^^^ UInt64.ofNat (product / UInt64.size)

def next (g : Generator) : UInt32 × Generator :=
  let counter := g.counter + increment
  ((scramble counter).toUInt32, ⟨counter⟩)

/-- The value below `n` that a word stands for: the range of words is cut into `n` parts of almost
the same size. -/
def part (n word : UInt32) : UInt32 := UInt32.ofNat (word.toNat * n.toNat / UInt32.size)

/-- Whether a word counts. The words left out are those by which some parts are larger than
others. -/
def counts (n word : UInt32) : Bool := (0 - n) % n ≤ word * n

theorem counts_last (n : UInt32) : counts n 0xFFFFFFFF = true := by
  have product : (0xFFFFFFFF : UInt32) * n = 0 - n := by grind
  simp only [counts, product, decide_eq_true_eq, UInt32.le_iff_toNat_le, UInt32.toNat_mod]
  exact Nat.mod_le _ _

/-- A state whose word counts for every `n`. -/
def goal : UInt64 := 7866185462 - increment

theorem next_goal : (next ⟨goal⟩).1 = 0xFFFFFFFF := by decide

/-- The number by which a difference of states becomes a number of steps. -/
def stepsPerUnit : UInt64 := 0x32e25c49d2beaf2d

theorem increment_mul_stepsPerUnit : increment * stepsPerUnit = 1 := by decide

/-- The number of steps to the state `goal`. -/
def distance (g : Generator) : Nat := ((goal - g.counter) * stepsPerUnit).toNat

theorem distance_next_lt {g : Generator} (h : g.counter ≠ goal) :
    g.next.2.distance < g.distance := by
  have unit := increment_mul_stepsPerUnit
  have step : (goal - (g.counter + increment)) * stepsPerUnit =
      (goal - g.counter) * stepsPerUnit - 1 := by grind
  have nonzero : (goal - g.counter) * stepsPerUnit ≠ 0 := by grind
  have positive : 1 ≤ (goal - g.counter) * stepsPerUnit := by
    rw [UInt64.le_iff_toNat_le]
    have : ((goal - g.counter) * stepsPerUnit).toNat ≠ 0 := fun zero =>
      nonzero (UInt64.toNat_inj.1 zero)
    simp only [UInt64.toNat_one]
    omega
  have := UInt64.le_iff_toNat_le.1 positive
  change ((goal - (g.counter + increment)) * stepsPerUnit).toNat < _
  rw [step, UInt64.toNat_sub_of_le _ _ positive, distance]
  simp only [UInt64.toNat_one] at *
  omega

/-- A number below `n`, from the first word that counts. -/
def below (n : UInt32) (g : Generator) : UInt32 × Generator :=
  if counts n g.next.1 then (part n g.next.1, g.next.2) else below n g.next.2
termination_by g.distance
decreasing_by
  rename_i rejected
  refine distance_next_lt fun home => rejected ?_
  obtain ⟨counter⟩ := g
  change counter = goal at home
  rw [home, next_goal]
  exact counts_last n

/-- A value from `low` to `high`, both included. The full range of values takes a word as it is. -/
def uniform (low high : Value) (g : Generator) : Value × Generator :=
  if low = Int32.minValue ∧ high = Int32.maxValue then
    (g.next.1.toInt32, g.next.2)
  else
    let (offset, g) := below ((high - low).toUInt32 + 1) g
    (low + offset.toInt32, g)

end Generator

end DiceNotation
