/-!
Values are signed 32-bit words. Arithmetic on them is exact: an operation whose result is outside
the range of the word has no value, so nothing ever wraps.
-/
namespace DiceNotation

abbrev Value := Int32

namespace Value

/-- The word that stands for an integer, if there is one. -/
def ofInt? (i : Int) : Option Value :=
  if (Int32.ofInt i).toInt = i then some (Int32.ofInt i) else none

theorem toInt_bounds (v : Value) : -2147483648 ≤ v.toInt ∧ v.toInt < 2147483648 :=
  ⟨Int32.le_toInt v, Int32.toInt_lt v⟩

theorem ofInt?_eq_some_iff {i : Int} {v : Value} : ofInt? i = some v ↔ v.toInt = i := by
  unfold ofInt?
  constructor
  · intro h
    split at h
    case isTrue hi => exact Option.some.inj h ▸ hi
    case isFalse => cases h
  · rintro rfl
    simp only [Int32.ofInt_toInt, if_true]

theorem ofInt?_eq_none_iff {i : Int} : ofInt? i = none ↔ i < -2147483648 ∨ 2147483648 ≤ i := by
  constructor
  · intro h
    refine Decidable.byContradiction fun hrange => ?_
    have hi : (Int32.ofInt i).toInt = i := Int32.toInt_ofInt_of_le (by omega) (by omega)
    rw [ofInt?_eq_some_iff.mpr hi] at h
    cases h
  · intro h
    cases hv : ofInt? i with
    | none => rfl
    | some v =>
      have hi := ofInt?_eq_some_iff.mp hv
      have := toInt_bounds v
      omega

def neg? (a : Value) : Option Value := ofInt? (-a.toInt)
def add? (a b : Value) : Option Value := ofInt? (a.toInt + b.toInt)
def sub? (a b : Value) : Option Value := ofInt? (a.toInt - b.toInt)
def mul? (a b : Value) : Option Value := ofInt? (a.toInt * b.toInt)

/-- The quotient without its fraction; the divisor is not zero. -/
def div? (a b : Value) : Option Value := ofInt? (a.toInt.tdiv b.toInt)

/-- The value in decimal, with a sign only when it is negative. -/
def text (v : Value) : String :=
  let digits := String.ofList (Nat.toDigits 10 v.toInt.natAbs)
  if v.toInt < 0 then "-" ++ digits else digits

end Value

end DiceNotation
