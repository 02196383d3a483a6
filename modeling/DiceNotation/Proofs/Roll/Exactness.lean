import DiceNotation.Proofs.Roll.Exact
import DiceNotation.Proofs.Roll.Replay

/-!
A roll is exact. It takes the steps of the same evaluation over the integers up to the first illegal
one and halts there with its fault, or takes all of them and has the same value. The integers see
the values that the roll draws, and it does not matter what would be drawn behind them.
-/
namespace DiceNotation

namespace Exact

/-- A stream that begins with the values drawn. -/
def stream (drawn : List Value) (later : Nat → Int) (n : Nat) : Int :=
  match drawn[n]? with
  | some value => value.toInt
  | none => later n

/-- Whether the dice of a roll show what a stream begins with. -/
def Agrees (stream : Nat → Int) (rolls : Array Value) : Prop :=
  ∀ (n : Nat) (value : Value), rolls.toList[n]? = some value → stream n = value.toInt

theorem Agrees.of_isPrefix {stream : Nat → Int} {rolls rolls' : Array Value}
    (h : Agrees stream rolls') (hinitial : rolls.toList <+: rolls'.toList) :
    Agrees stream rolls := by
  intro n value hvalue
  obtain ⟨more, hmore⟩ := hinitial
  apply h n value
  rw [← hmore]
  exact List.getElem?_append_left (List.getElem?_eq_some_iff.mp hvalue).1 ▸ hvalue

end Exact

open Exact

namespace Rolling

variable {σ : Type}

/-- A roll gets past the steps `taken` of a reckoning, which are legal. They are all that is left of
the reckoning, unless the roll halts at an illegal step or at a die that is not there. -/
structure Follows (ceiling : Option UInt32) (m : Rolling σ Value) (x : Reckoning Int) (run : Run σ)
    (before taken : List Exact.Step) : Prop where
  legal : ∀ step ∈ taken, step.Legal ceiling ∧ InRange step.result
  ok {value : Value} (h : m.outcome run = .ok value) :
    x.value before = value.toInt ∧ x.steps before = before ++ taken ∧
      (m.after run).rolls.size = rolledIn (before ++ taken)
  fault {error : EvalError} (h : m.outcome run = .error (.fault error)) :
    ∃ step, before ++ taken ++ [step] <+: x.steps before ∧ step.Illegal ceiling error ∧
      (m.after run).rolls.size = rolledIn (before ++ taken ++ [step])
  exhausted (h : m.outcome run = .error .exhausted) :
    ∃ step, before ++ taken ++ [step] <+: x.steps before ∧ step.isDie = true ∧
      (m.after run).rolls.size = rolledIn (before ++ taken)

section Steps

variable {ceiling : Option UInt32} {step : Exact.Step} {run : Run σ} {before : List Exact.Step}

end Steps

namespace Follows

variable {ceiling : Option UInt32} {m m' : Rolling σ Value} {f : Value → Rolling σ Value}
  {x y : Reckoning Int} {g : Int → Reckoning Int} {run run' : Run σ}
  {before taken taken' : List Exact.Step}

theorem congr (h' : Follows ceiling m' y run' before taken) (h : m run = m' run')
    (hxy : x before = y before) : Follows ceiling m x run before taken := by
  have houtcome := outcome_congr h
  have hafter := after_congr h
  have hvalue : x.value before = y.value before := congrArg Prod.fst hxy
  have hsteps : x.steps before = y.steps before := congrArg Prod.snd hxy
  refine ⟨h'.legal, ?_, ?_, ?_⟩
  · intro value hok
    rw [hvalue, hsteps, hafter]
    exact h'.ok (houtcome ▸ hok)
  · intro error hfault
    rw [hsteps, hafter]
    exact h'.fault (houtcome ▸ hfault)
  · intro hexhausted
    rw [hsteps, hafter]
    exact h'.exhausted (houtcome ▸ hexhausted)

theorem bind_error {halt : Halt} (first : Follows ceiling m x run before taken)
    (hm : m.outcome run = .error halt) (hgrows : ∀ i, (g i).Grows) :
    Follows ceiling (m >>= f) (x >>= g) run before taken := by
  have hafter := after_bind_of_error (f := f) hm
  have hlater : x.steps before <+: (x >>= g).steps before := hgrows _ _
  refine ⟨first.legal, ?_, ?_, ?_⟩
  · intro value hok
    rw [outcome_bind_of_error hm] at hok
    cases hok
  · intro error hfault
    rw [outcome_bind_of_error hm, ← hm] at hfault
    obtain ⟨step, hsteps, hillegal, hsize⟩ := first.fault hfault
    exact ⟨step, hsteps.trans hlater, hillegal, hafter ▸ hsize⟩
  · intro hexhausted
    rw [outcome_bind_of_error hm, ← hm] at hexhausted
    obtain ⟨step, hsteps, hdie, hsize⟩ := first.exhausted hexhausted
    exact ⟨step, hsteps.trans hlater, hdie, hafter ▸ hsize⟩

theorem bind_ok {value : Value} (first : Follows ceiling m x run before taken)
    (hm : m.outcome run = .ok value)
    (next : Follows ceiling (f value) (g value.toInt) (m.after run) (before ++ taken) taken') :
    Follows ceiling (m >>= f) (x >>= g) run before (taken ++ taken') := by
  obtain ⟨hvalue, hsteps, -⟩ := first.ok hm
  have houtcome := outcome_bind_of_ok (f := f) hm
  have hafter := after_bind_of_ok (f := f) hm
  have hvalue' : (x >>= g).value before = (g value.toInt).value (before ++ taken) := by
    rw [Reckoning.value_bind, hvalue, hsteps]
  have hsteps' : (x >>= g).steps before = (g value.toInt).steps (before ++ taken) := by
    rw [Reckoning.steps_bind, hvalue, hsteps]
  constructor
  · intro step hstep
    rcases List.mem_append.mp hstep with hfirst | hnext
    · exact first.legal step hfirst
    · exact next.legal step hnext
  · intro value' hok
    rw [hvalue', hsteps', hafter, ← List.append_assoc]
    exact next.ok (houtcome ▸ hok)
  · intro error hfault
    rw [hsteps', hafter, ← List.append_assoc]
    exact next.fault (houtcome ▸ hfault)
  · intro hexhausted
    rw [hsteps', hafter, ← List.append_assoc]
    exact next.exhausted (houtcome ▸ hexhausted)

end Follows

variable [Source σ]

/-- A roll follows a reckoning from wherever both stand, if its dice show the stream. -/
structure Refines (ceiling : Option UInt32) (stream : Nat → Int) (m : Rolling σ Value)
    (x : Reckoning Int) : Prop where
  replays : Replays m m
  follows (run : Run σ) (before : List Exact.Step) (hstream : Agrees stream (m.after run).rolls)
    (hrolled : run.rolls.size = rolledIn before) : ∃ taken, Follows ceiling m x run before taken

section Refinement

variable {ceiling : Option UInt32} {stream : Nat → Int} {m : Rolling σ Value}
  {f : Value → Rolling σ Value} {x : Reckoning Int} {g : Int → Reckoning Int}

theorem Refines.bind (first : Refines ceiling stream m x) (hgrows : ∀ i, (g i).Grows)
    (next : ∀ value : Value, Refines ceiling stream (f value) (g value.toInt)) :
    Refines ceiling stream (m >>= f) (x >>= g) := by
  refine ⟨first.replays.bind fun value => (next value).replays, ?_⟩
  intro run before hstream hrolled
  cases hm : m.outcome run with
  | error halt =>
    rw [after_bind_of_error hm] at hstream
    obtain ⟨taken, hfirst⟩ := first.follows run before hstream hrolled
    exact ⟨taken, hfirst.bind_error hm hgrows⟩
  | ok value =>
    -- The second part only adds dice, so the dice of the first part show the stream as well.
    rw [after_bind_of_ok hm] at hstream
    have hgrown := (next value).replays.rolls_isPrefix (m.after run)
    obtain ⟨taken, hfirst⟩ := first.follows run before (hstream.of_isPrefix hgrown) hrolled
    obtain ⟨-, -, hsize⟩ := hfirst.ok hm
    obtain ⟨taken', hnext⟩ := (next value).follows (m.after run) (before ++ taken) hstream hsize
    exact ⟨taken ++ taken', hfirst.bind_ok hm hnext⟩

theorem Refines.operands {m' : Rolling σ Value} {f : Value → Value → Rolling σ Value}
    {y : Reckoning Int} {g : Int → Int → Reckoning Int} (left : Refines ceiling stream m x)
    (right : Refines ceiling stream m' y) (hy : y.Grows) (hg : ∀ i j, (g i j).Grows)
    (last : ∀ v w : Value, Refines ceiling stream (f v w) (g v.toInt w.toInt)) :
    Refines ceiling stream (do f (← m) (← m')) (do g (← x) (← y)) := by
  apply left.bind
  · intro i
    exact hy.bind (hg i)
  · intro v
    exact right.bind (hg v.toInt) (last v)

/-- A roll that has a value and no dice follows a reckoning that takes no step. -/
theorem Refines.of_still {value : Value} (hreplays : Replays m m)
    (hm : ∀ run, m.outcome run = .ok value ∧ (m.after run).rolls = run.rolls) :
    Refines ceiling stream m (pure value.toInt) := by
  refine ⟨hreplays, ?_⟩
  intro run before hstream hrolled
  obtain ⟨houtcome, hrolls⟩ := hm run
  refine ⟨[], nofun, ?_, ?_, ?_⟩
  · intro value' hok
    rw [houtcome] at hok
    cases hok
    rw [hrolls, List.append_nil]
    exact ⟨rfl, rfl, hrolled⟩
  · intro error hfault
    rw [houtcome] at hfault
    cases hfault
  · intro hexhausted
    rw [houtcome] at hexhausted
    cases hexhausted

end Refinement

end Rolling

namespace Roller

variable {σ : Type} [Source σ]

/-- A partial sum out of range ends the roll, even if the next die would bring the sum back. -/
example : ((Roller.mk (Supply.listed [2147483647, 1, -5]) none #[]).evaluate (.ofDice 3 6)).1 =
    .error (.fault .overflow) := rfl

end Roller

end DiceNotation
