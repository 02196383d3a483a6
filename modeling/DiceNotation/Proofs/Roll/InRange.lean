import DiceNotation.Proofs.Roll.Actions
import DiceNotation.Proofs.Source.Range

/-!
Rolls from sources that stay in range. Dice with at least one side always get a value, so a roll
never runs out of draws. The sum of some dice lies between their number and their number times
their sides, and it overflows only if the larger of these is no value.
-/
namespace DiceNotation

namespace Rolling

variable {σ : Type} [Source σ]

/-- A term is accepted if it has sides, no negative count, and room under the ceiling. -/
theorem refusal?_eq_none_iff {ceiling : Option UInt32} {rolled : Nat} {count sides : Value} :
    refusal? ceiling rolled count sides = none ↔
      1 ≤ sides.toInt ∧ 0 ≤ count.toInt ∧ ∀ limit ∈ ceiling,
        min (rolled + count.toInt.toNat) (UInt32.size - 1) ≤ limit.toNat := by
  unfold refusal? passedLimit?
  by_cases hsides : sides.toInt < 1
  · rw [if_pos hsides]
    exact iff_of_false nofun fun h => by omega
  · by_cases hcount : count.toInt < 0
    · rw [if_neg hsides, if_pos hcount]
      exact iff_of_false nofun fun h => by omega
    · rw [if_neg hsides, if_neg hcount, Option.map_eq_none_iff, Option.filter_eq_none_iff]
      rw [and_iff_right (Int.not_lt.mp hsides), and_iff_right (Int.not_lt.mp hcount)]
      simp only [decide_eq_true_eq, Nat.not_lt, Option.mem_def]

section Dice

variable {count : Nat} {sides sum value : Value} {run : Run σ}

/-- The run behind a die that shows `value`. -/
def behindDie (sides value : Value) (run : Run σ) : Run σ :=
  ⟨(Source.draw 1 sides run.source).2, run.rolls.push value, run.journal⟩

theorem dice_succ (count : Nat) (sum : Value)
    (hdraw : (Source.draw 1 sides run.source).1 = some value) :
    dice sides (count + 1) sum run =
      (inRange (sum.add? value) >>= dice sides count) (behindDie sides value run) := by
  have houtcome := outcome_die sides run
  have hafter := after_die sides run
  rw [hdraw] at houtcome hafter
  rw [dice, bind_of_ok houtcome, hafter]
  rfl

/-- How some dice can end that are added to `sum`: with a sum in the bounds of their sides, or with
an overflow if the sum can be too large. -/
structure EndsInBounds (count : Nat) (sides sum : Value) (run : Run σ) : Prop where
  source : Source.InRange ((dice sides count sum).after run).source
  sum :
    (∃ total, (dice sides count sum).outcome run = .ok total ∧
      sum.toInt + count ≤ total.toInt ∧ total.toInt ≤ sum.toInt + count * sides.toInt ∧
      ((dice sides count sum).after run).rolls.size = run.rolls.size + count) ∨
    ((dice sides count sum).outcome run = .error (.fault .overflow) ∧
      2147483648 ≤ sum.toInt + count * sides.toInt)

theorem endsInBounds (hsides : 1 ≤ sides.toInt) (hsum : 0 ≤ sum.toInt)
    (hsource : Source.InRange run.source) : EndsInBounds count sides sum run := by
  induction count generalizing sum run with
  | zero =>
    refine ⟨hsource, .inl ⟨sum, rfl, ?_, ?_, rfl⟩⟩
    · omega
    · omega
  | succ count ih =>
    obtain ⟨value, hdraw, hone, hle, hnext⟩ := hsource.draw (show (1 : Value).toInt ≤ _ from hsides)
    replace hone : 1 ≤ value.toInt := hone
    have hdice := dice_succ count sum hdraw
    have hproduct :
        ((count + 1 : Nat) : Int) * sides.toInt = count * sides.toInt + sides.toInt := by
      rw [Int.natCast_add, Int.add_mul]
      simp
    have hothers : 0 ≤ (count : Int) * sides.toInt := Int.mul_nonneg (by omega) (by omega)
    cases hadd : sum.add? value with
    | none =>
      have hlarge := Value.ofInt?_eq_none_iff.mp hadd
      rw [hadd] at hdice
      refine ⟨?_, .inr ⟨?_, by omega⟩⟩
      · rw [after_congr hdice]
        exact hnext
      · rw [outcome_congr hdice]
        rfl
    | some next =>
      have hvalue := Value.ofInt?_eq_some_iff.mp hadd
      rw [hadd] at hdice
      replace hdice : dice sides (count + 1) sum run =
        dice sides count next (behindDie sides value run) := hdice
      have hends : EndsInBounds count sides next (behindDie sides value run) :=
        ih (by omega) hnext
      obtain ⟨hsource', hends⟩ := hends
      refine ⟨?_, ?_⟩
      · rw [after_congr hdice]
        exact hsource'
      · rw [outcome_congr hdice, after_congr hdice]
        rcases hends with ⟨total, hok, hlow, hhigh, hsize⟩ | ⟨hoverflow, hlarge⟩
        · refine .inl ⟨total, hok, by omega, by omega, ?_⟩
          rw [hsize, behindDie, Array.size_push]
          omega
        · exact .inr ⟨hoverflow, by omega⟩

end Dice

/-- Whether an action never runs out of draws from a source in range, and leaves that in range. -/
def Answered (m : Rolling σ Value) : Prop :=
  ∀ run, Source.InRange run.source →
    m.outcome run ≠ .error .exhausted ∧ Source.InRange (m.after run).source

theorem Answered.bind {m : Rolling σ Value} {f : Value → Rolling σ Value} (first : Answered m)
    (next : ∀ value, Answered (f value)) : Answered (m >>= f) := by
  intro run hsource
  obtain ⟨hfirst, hafter⟩ := first run hsource
  cases hm : m.outcome run with
  | error halt =>
    rw [outcome_bind_of_error hm, after_bind_of_error hm]
    rw [hm] at hfirst
    exact ⟨fun hhalt => hfirst (by cases hhalt; rfl), hafter⟩
  | ok value =>
    rw [outcome_bind_of_ok hm, after_bind_of_ok hm]
    exact next value _ hafter

theorem answered_term (ceiling : Option UInt32) (count sides : Value) :
    Answered (term ceiling count sides : Rolling σ Value) := by
  intro run hsource
  cases hrefusal : refusal? ceiling run.rolls.size count sides with
  | some error =>
    rw [outcome_congr (term_refused hrefusal), after_congr (term_refused hrefusal)]
    exact ⟨nofun, hsource⟩
  | none =>
    have hsides := (refusal?_eq_none_iff.mp hrefusal).1
    have hends : EndsInBounds count.toInt.toNat sides 0 run :=
      endsInBounds hsides (Int.le_refl 0) hsource
    rw [outcome_congr (term_accepted hrefusal), after_congr (term_accepted hrefusal)]
    rcases hends.sum with ⟨total, hok, -⟩ | ⟨hoverflow, -⟩
    · rw [outcome_bind_of_ok hok, after_bind_of_ok hok, after_note]
      exact ⟨nofun, hends.source⟩
    · rw [outcome_bind_of_error hoverflow, after_bind_of_error hoverflow]
      exact ⟨nofun, hends.source⟩

theorem answered_roll (ceiling : Option UInt32) (e : Expr) :
    Answered (e.roll ceiling : Rolling σ Value) := by
  have hcompatible : Compatible ceiling ceiling
      fun (m : Rolling σ Value) (_ : Rolling σ Value) => Answered m := {
    pure := fun value run hsource => ⟨nofun, hsource⟩
    fault := fun error run hsource => ⟨nofun, hsource⟩
    bind := fun first next => first.bind next
    term := answered_term ceiling }
  exact hcompatible.roll e

end Rolling

theorem Roller.evaluate_answered {σ : Type} [Source σ] {roller : Roller σ}
    (h : Source.InRange roller.source) (e : Expr) : (roller.evaluate e).1 ≠ .error .exhausted := by
  rw [evaluate_eq, ne_eq, evaluationOf_eq_error_iff]
  exact (Rolling.answered_roll roller.ceiling e roller.start h).1

end DiceNotation
