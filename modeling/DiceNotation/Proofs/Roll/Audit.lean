import DiceNotation.Proofs.Roll.InRange
import DiceNotation.Proofs.Roll.Replay
import DiceNotation.Proofs.Roll.Terms

/-!
What the journal of an evaluation tells of it. Read along the tree, operands first, it has one
record for each dice term in the order in which these are complete, and the values can be reckoned
again from it. The dice of an evaluation that fails are those of its records and of the one term
that broke off.
-/
namespace DiceNotation

/-- The exact sum of some values. -/
def Value.exactSum : List Value → Int
  | [] => 0
  | value :: values => value.toInt + exactSum values

@[simp] theorem Value.exactSum_cons (value : Value) (values : List Value) :
    exactSum (value :: values) = value.toInt + exactSum values := rfl

/-- The quotient without its fraction, if there is one. -/
def Value.quotient? (x y : Value) : Option Value := if y = 0 then none else x.div? y

namespace Expr

/-- `Joins e left right f`: the value of `e` comes from those of its two operands by `f`, without a
die of its own. -/
inductive Joins : Expr → Expr → Expr → (Value → Value → Option Value) → Prop
  | add (left right : Expr) : Joins (add left right) left right Value.add?
  | sub (left right : Expr) : Joins (sub left right) left right Value.sub?
  | mul (left right : Expr) : Joins (mul left right) left right Value.mul?
  | div (left right : Expr) : Joins (div left right) left right Value.quotient?

end Expr

namespace Event

/-- Whether the values of a record are sides of its dice. -/
def InSides (event : Event) : Prop :=
  ∀ count sides rolls sum, event = .termRolled count sides rolls sum →
    ∀ value ∈ rolls, 1 ≤ value.toInt ∧ value.toInt ≤ sides.toInt

end Event

namespace Rolling

variable {σ : Type} [Source σ]

/-- What the records of an action tell of it: that it did what `Done` says, or what `Broken` says if
it halts. -/
structure Audited (m : Rolling σ Value) (Done : List Event → Value → Prop)
    (Broken : List Event → List Value → Prop) (run : Run σ) (terms : List Event)
    (rest : List Value) : Prop extends Completes m run terms rest where
  done : ∀ total, m.outcome run = .ok total → Done terms total
  broken : ∀ halt, m.outcome run = .error halt → Broken terms rest
  inSides : Source.InRange run.source → ∀ term ∈ terms, term.InSides
  overflow : Source.InRange run.source → m.outcome run = .error (.fault .overflow) →
    rest = [] ∨ 2147483648 ≤ Value.exactSum rest

/-- Whether an action can always be audited in this way. -/
def Auditable (m : Rolling σ Value) (Done : List Event → Value → Prop)
    (Broken : List Event → List Value → Prop) : Prop :=
  ∀ run, ∃ terms rest, Audited m Done Broken run terms rest

variable {m : Rolling σ Value} {f : Value → Rolling σ Value}
  {Done Done' : List Event → Value → Prop} {Broken Broken' : List Event → List Value → Prop}

theorem Auditable.bind (answered : Answered m) (first : Auditable m Done Broken)
    (hbroken : ∀ terms rest, Broken terms rest → Broken' terms rest)
    (next : ∀ terms value, Done terms value →
      Auditable (f value) (fun terms' total => Done' (terms ++ terms') total)
        fun terms' rest => Broken' (terms ++ terms') rest) :
    Auditable (m >>= f) Done' Broken' := by
  intro run
  obtain ⟨terms, rest, haudited⟩ := first run
  cases hm : m.outcome run with
  | error halt =>
    refine ⟨terms, rest, haudited.bind_error hm, ?_, ?_, haudited.inSides, ?_⟩
    · rw [outcome_bind_of_error hm]
      nofun
    · intro _ _
      exact hbroken terms rest (haudited.broken halt hm)
    · rw [outcome_bind_of_error hm, ← hm]
      exact haudited.overflow
  | ok value =>
    obtain ⟨terms', rest', hnext⟩ := next terms value (haudited.done value hm) (m.after run)
    refine ⟨terms ++ terms', rest', haudited.bind_ok hm hnext.toCompletes, ?_, ?_, ?_, ?_⟩
    · rw [outcome_bind_of_ok hm]
      exact hnext.done
    · rw [outcome_bind_of_ok hm]
      exact hnext.broken
    · intro hsource term hterm
      -- The second action needs the source to be in range still.
      rcases List.mem_append.mp hterm with hterm | hterm
      · exact haudited.inSides hsource term hterm
      · exact hnext.inSides (answered run hsource).2 term hterm
    · rw [outcome_bind_of_ok hm]
      exact fun hsource => hnext.overflow (answered run hsource).2

/-- What is done with the values of two operands, in a roll of them. -/
theorem exists_roll_eq {e left right : Expr} {f : Value → Value → Option Value}
    (h : Expr.Joins e left right f) (ceiling : Option UInt32) :
    ∃ last : Value → Value → Rolling σ Value,
      e.roll ceiling = (do last (← left.roll ceiling) (← right.roll ceiling)) ∧
      ∀ x y, (∃ z, f x y = some z ∧ last x y = pure z) ∨
        f x y = none ∧ ∃ error, last x y = throw (.fault error) := by
  have hinRange : ∀ value? : Option Value,
      (∃ z, value? = some z ∧ inRange value? = (pure z : Rolling σ Value)) ∨
        value? = none ∧ ∃ error, inRange value? = (throw (.fault error) : Rolling σ Value) := by
    intro value?
    cases value? with
    | some z => exact .inl ⟨z, rfl, rfl⟩
    | none => exact .inr ⟨rfl, .overflow, rfl⟩
  cases h with
  | add => exact ⟨fun x y => inRange (x.add? y), rfl, fun x y => hinRange (x.add? y)⟩
  | sub => exact ⟨fun x y => inRange (x.sub? y), rfl, fun x y => hinRange (x.sub? y)⟩
  | mul => exact ⟨fun x y => inRange (x.mul? y), rfl, fun x y => hinRange (x.mul? y)⟩
  | div =>
    refine ⟨fun x y => if y = 0 then throw (.fault .divisionByZero) else inRange (x.div? y), rfl,
      ?_⟩
    intro x y
    unfold Value.quotient?
    dsimp only
    by_cases hy : y = 0
    · rw [if_pos hy, if_pos hy]
      exact .inr ⟨rfl, .divisionByZero, rfl⟩
    · rw [if_neg hy, if_neg hy]
      exact hinRange (x.div? y)

end Rolling

namespace Roller

variable {σ : Type} [Source σ]

end Roller

end DiceNotation
