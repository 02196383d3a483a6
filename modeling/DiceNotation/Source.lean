import DiceNotation.Source.Generator

/-!
Sources of draws. A source is a state from which values are drawn one at a time, each from a range
that its user asks for. It may run out, and may still change when it has nothing to give.
-/
namespace DiceNotation

class Source (σ : Type) where
  /-- One value for the range from `low` to `high`, both included, unless the source has run out,
  and the source afterwards. -/
  draw : (low high : Value) → σ → Option Value × σ

instance : Source Generator where
  draw low high g := (some (g.uniform low high).1, (g.uniform low high).2)

/-- The sources at hand: the ends of every range, one value whatever the range is, listed values
until they run out, and generated values. -/
inductive Supply where
  | highest
  | lowest
  | constant (value : Value)
  | listed (values : List Value)
  | generated (generator : Generator)
  deriving DecidableEq, Repr

namespace Supply

def draw (low high : Value) : Supply → Option (Value × Supply)
  | highest => some (high, highest)
  | lowest => some (low, lowest)
  | constant value => some (value, constant value)
  | listed [] => none
  | listed (value :: values) => some (value, listed values)
  | generated g =>
    let (value, g) := g.uniform low high
    some (value, generated g)

instance : Source Supply where
  draw low high supply :=
    match supply.draw low high with
    | some (value, rest) => (some value, rest)
    | none => (none, supply)

/-- A generator that starts from a seed. -/
def ofSeed (seed : UInt64) : Supply := generated ⟨seed⟩

end Supply

end DiceNotation
