import DiceNotation.Proofs.Canonical.Reparse
import DiceNotation.Proofs.Roll.Actions
import DiceNotation.Proofs.Session.Rolls
import DiceNotation.Proofs.Source.Range

/-!
What no draw can change. Two rolls of a deterministic expression with sources that stay in range go
side by side: dice are only rolled with a single side, so both show ones, and neither the values nor
the number of dice ever differ.
-/
namespace DiceNotation

namespace Rolling

variable {σ τ : Type} [Source σ] [Source τ]

/-- Two runs with the same dice, all of them ones, whose sources stay in range. -/
structure Level (run : Run σ) (run' : Run τ) : Prop where
  source : Source.InRange run.source
  source' : Source.InRange run'.source
  rolls : run'.rolls = run.rolls
  ones : ∀ v ∈ run.rolls, v = 1

/-- Two actions that end alike in level runs, with no source run out, and leave these level. -/
structure Parallel (m : Rolling σ Value) (m' : Rolling τ Value) (run : Run σ) (run' : Run τ) :
    Prop where
  outcome : m'.outcome run' = m.outcome run
  answered : m.outcome run ≠ .error .exhausted
  level : Level (m.after run) (m'.after run')

theorem Parallel.congr {m m₁ : Rolling σ Value} {m' m₁' : Rolling τ Value} {run : Run σ}
    {run' : Run τ} (h₁ : Parallel m₁ m₁' run run') (h : m run = m₁ run) (h' : m' run' = m₁' run') :
    Parallel m m' run run' := by
  refine ⟨?_, ?_, ?_⟩
  · rw [outcome_congr h, outcome_congr h', h₁.outcome]
  · rw [outcome_congr h]
    exact h₁.answered
  · rw [after_congr h, after_congr h']
    exact h₁.level

def KeepsLevel (m : Rolling σ Value) (m' : Rolling τ Value) : Prop :=
  ∀ run run', Level run run' → Parallel m m' run run'

namespace KeepsLevel

variable {m : Rolling σ Value} {m' : Rolling τ Value} {f : Value → Rolling σ Value}
  {f' : Value → Rolling τ Value}

theorem pure (value : Value) :
    KeepsLevel (pure value : Rolling σ Value) (Pure.pure value : Rolling τ Value) := by
  intro run run' hlevel
  exact ⟨rfl, nofun, hlevel⟩

theorem fault (error : EvalError) :
    KeepsLevel (throw (.fault error) : Rolling σ Value)
      (throw (.fault error) : Rolling τ Value) := by
  intro run run' hlevel
  exact ⟨rfl, nofun, hlevel⟩

theorem bind (first : KeepsLevel m m') (next : ∀ value, KeepsLevel (f value) (f' value)) :
    KeepsLevel (m >>= f) (m' >>= f') := by
  intro run run' hlevel
  have hfirst := first run run' hlevel
  cases hm : m.outcome run with
  | error halt =>
    have hm' := hfirst.outcome.trans hm
    constructor
    · rw [outcome_bind_of_error hm, outcome_bind_of_error hm']
    · rw [outcome_bind_of_error hm]
      intro hhalt
      cases hhalt
      exact hfirst.answered hm
    · rw [after_bind_of_error hm, after_bind_of_error hm']
      exact hfirst.level
  | ok value =>
    have hm' := hfirst.outcome.trans hm
    have hnext := next value _ _ hfirst.level
    constructor
    · rw [outcome_bind_of_ok hm, outcome_bind_of_ok hm']
      exact hnext.outcome
    · rw [outcome_bind_of_ok hm]
      exact hnext.answered
    · rw [after_bind_of_ok hm, after_bind_of_ok hm']
      exact hnext.level

theorem operands {m₁ m₂ : Rolling σ Value} {m₁' m₂' : Rolling τ Value}
    {f : Value → Value → Rolling σ Value} {f' : Value → Value → Rolling τ Value}
    (left : KeepsLevel m₁ m₁') (right : KeepsLevel m₂ m₂')
    (last : ∀ x y, KeepsLevel (f x y) (f' x y)) :
    KeepsLevel (do f (← m₁) (← m₂)) (do f' (← m₁') (← m₂')) :=
  left.bind fun x => right.bind fun y => last x y

theorem inRange (value? : Option Value) :
    KeepsLevel (inRange value? : Rolling σ Value) (Rolling.inRange value? : Rolling τ Value) := by
  cases value? with
  | none => exact fault .overflow
  | some value => exact pure value

/-- A die with a single side shows a one. -/
theorem die : KeepsLevel (die 1 : Rolling σ Value) (Rolling.die 1 : Rolling τ Value) := by
  intro run run' hlevel
  obtain ⟨value, hvalue, hlow, hhigh, hsource⟩ :=
    hlevel.source.draw (Int.le_refl (1 : Value).toInt)
  obtain ⟨value', hvalue', hlow', hhigh', hsource'⟩ :=
    hlevel.source'.draw (Int.le_refl (1 : Value).toInt)
  obtain rfl : value = 1 := Int32.toInt_inj.mp (Int.le_antisymm hhigh hlow)
  obtain rfl : value' = 1 := Int32.toInt_inj.mp (Int.le_antisymm hhigh' hlow')
  have houtcome := outcome_die 1 run
  have houtcome' := outcome_die 1 run'
  have hafter := after_die 1 run
  have hafter' := after_die 1 run'
  rw [hvalue] at houtcome hafter
  rw [hvalue'] at houtcome' hafter'
  refine ⟨houtcome'.trans houtcome.symm, ?_, ?_⟩
  · rw [houtcome]
    nofun
  · rw [hafter, hafter']
    refine ⟨hsource, hsource', ?_, ?_⟩
    · simp only [hlevel.rolls]
    · intro v hv
      rcases Array.mem_push.mp hv with hbefore | hnew
      · exact hlevel.ones v hbefore
      · exact hnew

theorem dice (count : Nat) (sum : Value) :
    KeepsLevel (dice 1 count sum : Rolling σ Value)
      (Rolling.dice 1 count sum : Rolling τ Value) := by
  induction count generalizing sum with
  | zero => exact pure sum
  | succ count ih =>
    apply bind die
    intro value
    exact bind (inRange (sum.add? value)) ih

theorem note (count sides : Value) (before : Nat) (sum : Value) :
    KeepsLevel (note count sides before sum : Rolling σ Value)
      (Rolling.note count sides before sum : Rolling τ Value) := by
  intro run run' hlevel
  exact ⟨rfl, nofun, hlevel.source, hlevel.source', hlevel.rolls, hlevel.ones⟩

/-- A dice term shows ones if its dice have a single side, and nothing if there are none. -/
theorem term (ceiling : Option UInt32) {count sides : Value} (h : count = 0 ∨ sides = 1) :
    KeepsLevel (term ceiling count sides : Rolling σ Value)
      (Rolling.term ceiling count sides : Rolling τ Value) := by
  have hdice : KeepsLevel (Rolling.dice sides count.toInt.toNat 0 : Rolling σ Value)
      (Rolling.dice sides count.toInt.toNat 0 : Rolling τ Value) := by
    rcases h with rfl | rfl
    · exact pure 0
    · exact dice count.toInt.toNat 0
  intro run run' hlevel
  have hsame : refusal? ceiling run'.rolls.size count sides =
      refusal? ceiling run.rolls.size count sides := by rw [hlevel.rolls]
  cases hrefusal : refusal? ceiling run.rolls.size count sides with
  | some error =>
    exact (fault error run run' hlevel).congr (term_refused hrefusal)
      (term_refused (hsame.trans hrefusal))
  | none =>
    have hnoted := bind hdice (note count sides run.rolls.size)
    have haccepted := term_accepted (hsame.trans hrefusal)
    rw [hlevel.rolls] at haccepted
    exact (hnoted run run' hlevel).congr (term_accepted hrefusal) haccepted

end KeepsLevel

/-- A deterministic expression rolls alike with any two sources that stay in range. -/
theorem keepsLevel_roll (ceiling : Option UInt32) (e : Expr) (he : e.isDeterministic = true) :
    KeepsLevel (e.roll ceiling : Rolling σ Value) (e.roll ceiling : Rolling τ Value) := by
  induction e with
  | num value => exact .pure value
  | neg operand ih => exact (ih he).bind fun x => .inRange x.neg?
  | dice count sides ihcount ihsides =>
    simp only [Expr.isDeterministic, Bool.and_eq_true, Bool.or_eq_true, beq_iff_eq] at he
    obtain ⟨⟨rfl | rfl, hcount⟩, hsides⟩ := he
    · exact (ihsides hsides).bind fun y => .term ceiling (.inl rfl)
    · exact (ihcount hcount).bind fun x => .term ceiling (.inr rfl)
  | add left right ihleft ihright =>
    simp only [Expr.isDeterministic, Bool.and_eq_true] at he
    exact (ihleft he.1).operands (ihright he.2) fun x y => .inRange (x.add? y)
  | sub left right ihleft ihright =>
    simp only [Expr.isDeterministic, Bool.and_eq_true] at he
    exact (ihleft he.1).operands (ihright he.2) fun x y => .inRange (x.sub? y)
  | mul left right ihleft ihright =>
    simp only [Expr.isDeterministic, Bool.and_eq_true] at he
    exact (ihleft he.1).operands (ihright he.2) fun x y => .inRange (x.mul? y)
  | div left right ihleft ihright =>
    simp only [Expr.isDeterministic, Bool.and_eq_true] at he
    apply (ihleft he.1).operands (ihright he.2)
    intro x y
    by_cases hy : y = 0
    · rw [if_pos hy, if_pos hy]
      exact .fault .divisionByZero
    · rw [if_neg hy, if_neg hy]
      exact .inRange (x.div? y)

end Rolling

section Evaluation

variable {σ τ : Type} [Source σ] [Source τ] {s : σ} {t : τ} {e : Expr}

theorem Roller.parallel_roll (hs : Source.InRange s) (ht : Source.InRange t)
    (he : e.isDeterministic = true) (ceiling : Option UInt32) (journal journal' : Array Event) :
    Rolling.Parallel (e.roll ceiling : Rolling σ Value) (e.roll ceiling : Rolling τ Value)
      (Roller.mk s ceiling journal).start (Roller.mk t ceiling journal').start :=
  Rolling.keepsLevel_roll ceiling e he _ _ ⟨hs, ht, rfl, nofun⟩

theorem Roller.evaluate_eq_evaluate (hs : Source.InRange s) (ht : Source.InRange t)
    (he : e.isDeterministic = true) (ceiling : Option UInt32) (journal journal' : Array Event) :
    ((Roller.mk t ceiling journal').evaluate e).1 =
      ((Roller.mk s ceiling journal).evaluate e).1 := by
  have hroll := parallel_roll hs ht he ceiling journal journal'
  simp only [evaluate_eq, hroll.outcome, hroll.level.rolls]

theorem Roller.evaluate_ne_exhausted (hs : Source.InRange s) (he : e.isDeterministic = true)
    (ceiling : Option UInt32) (journal : Array Event) :
    ((Roller.mk s ceiling journal).evaluate e).1 ≠ .error .exhausted := by
  have hroll := parallel_roll hs hs he ceiling journal journal
  rw [evaluate_eq, ne_eq, evaluationOf_eq_error_iff]
  exact hroll.answered

theorem Roller.eq_one_of_mem_rolls (hs : Source.InRange s) (he : e.isDeterministic = true)
    {ceiling : Option UInt32} {journal : Array Event} {evaluation : Evaluation}
    (h : ((Roller.mk s ceiling journal).evaluate e).1 = .ok evaluation) :
    ∀ v ∈ evaluation.rolls, v = 1 := by
  have hroll := parallel_roll hs hs he ceiling journal journal
  rw [evaluate_eq, evaluationOf_eq_ok_iff] at h
  rw [h.2]
  exact hroll.level.ones

theorem Session.once_eq_once (hs : Source.InRange s) (ht : Source.InRange t)
    (he : e.isDeterministic = true) {text : String} (htext : Expr.ofText text = .ok e) :
    (once t text).1 = (once s text).1 := by
  rw [once_of_ok s htext, once_of_ok t htext]
  rw [Roller.evaluate_eq_evaluate hs ht he none (Event.ofReading text) (Event.ofReading text)]

end Evaluation

/-- What a deterministic expression comes to does not depend on the source, as long as this gives
values in the range that is asked for. The roll has an outcome, and all its dice are ones. A text
with such an expression is worth the same whatever the seed is. -/
theorem Roller.evaluate_deterministic (e : Expr) (he : e.isDeterministic = true) :
    (∀ (σ τ : Type) [Source σ] [Source τ] (s : σ) (t : τ), Source.InRange s → Source.InRange t →
      ∀ (ceiling : Option UInt32) (journal journal' : Array Event),
        ((Roller.mk t ceiling journal').evaluate e).1 =
            ((Roller.mk s ceiling journal).evaluate e).1 ∧
          ((Roller.mk s ceiling journal).evaluate e).1 ≠ .error .exhausted ∧
          ∀ evaluation, ((Roller.mk s ceiling journal).evaluate e).1 = .ok evaluation →
            ∀ v ∈ evaluation.rolls, v = 1) ∧
      (∀ g : Generator, Source.InRange g) ∧
      ∀ text, Expr.ofText text = .ok e → ∀ seed seed' : UInt64,
        (Session.once (Supply.ofSeed seed') text).1 =
          (Session.once (Supply.ofSeed seed) text).1 := by
  refine ⟨?_, Generator.inRange, ?_⟩
  · intro σ τ _ _ s t hs ht ceiling journal journal'
    exact ⟨evaluate_eq_evaluate hs ht he ceiling journal journal',
      evaluate_ne_exhausted hs he ceiling journal, fun _ => eq_one_of_mem_rolls hs he⟩
  · intro text htext seed seed'
    exact Session.once_eq_once (Supply.inRange_ofSeed seed) (Supply.inRange_ofSeed seed') he htext

/-- `(1 + 2)d1`, where the number of dice is computed, from the low ends of all ranges and from
seeds. -/
theorem Roller.evaluate_computed_count :
    let e := Expr.dice (.add (.num 1) (.num 2)) (.num 1)
    e.isDeterministic = true ∧
      ((Roller.mk Supply.lowest (some 3) #[]).evaluate e).1 = .ok ⟨3, #[1, 1, 1]⟩ ∧
      ((Roller.mk (Supply.ofSeed 2) (some 3) #[]).evaluate e).1 = .ok ⟨3, #[1, 1, 1]⟩ ∧
      Expr.ofText e.display = .ok e ∧
      (Session.once (Supply.ofSeed 2) e.display).1 =
        (Session.once (Supply.ofSeed 1) e.display).1 := by
  intro e
  have he : e.isDeterministic = true := rfl
  have hlowest : ((Roller.mk Supply.lowest (some 3) #[]).evaluate e).1 =
      .ok ⟨3, #[1, 1, 1]⟩ := rfl
  have hliterals : ∀ v ∈ e.literals, v ≠ Int32.minValue := by
    intro v hv
    have hmem : v = 1 ∨ v = 2 := by simpa [e, Expr.literals, or_comm] using hv
    rcases hmem with rfl | rfl <;> decide
  have htext : Expr.ofText e.display = .ok e :=
    (e.writes_display hliterals).ofText_within e.forms_tokens (by decide)
  obtain ⟨hevaluate, -, honce⟩ := evaluate_deterministic e he
  have hseed := hevaluate Supply Supply Supply.lowest (Supply.ofSeed 2) Supply.inRange_lowest
    (Supply.inRange_ofSeed 2) (some 3) #[] #[]
  exact ⟨he, hlowest, hseed.1.trans hlowest, htext, honce e.display htext 1 2⟩

end DiceNotation
