import DiceNotation.Evaluation.Roll

/-!
Rolling actions by their two results, the outcome and the run afterwards, which is there whether the
action halts or not. A dice term is either refused before its first die or rolled to its end.

What rolling an expression does follows from what dice terms do: `Compatible` lists what a relation
between two actions has to be compatible with to hold of any expression rolled in two ways.
-/
namespace DiceNotation

namespace Rolling

variable {σ τ α β : Type}

/-- How an action ends. -/
def outcome (m : Rolling σ α) (run : Run σ) : Except Halt α :=
  match m run with
  | .ok value _ => .ok value
  | .error halt _ => .error halt

/-- The run at the end of an action. -/
def after (m : Rolling σ α) (run : Run σ) : Run σ :=
  match m run with
  | .ok _ run' | .error _ run' => run'

theorem outcome_congr {m m' : Rolling σ α} {run run' : Run σ} (h : m run = m' run') :
    m.outcome run = m'.outcome run' := by
  unfold outcome
  rw [h]

theorem after_congr {m m' : Rolling σ α} {run run' : Run σ} (h : m run = m' run') :
    m.after run = m'.after run' := by
  unfold after
  rw [h]

theorem outcome_pure (value : α) (run : Run σ) :
    (pure value : Rolling σ α).outcome run = .ok value := rfl

theorem after_pure (value : α) (run : Run σ) : (pure value : Rolling σ α).after run = run := rfl

theorem outcome_throw (halt : Halt) (run : Run σ) :
    (throw halt : Rolling σ α).outcome run = .error halt := rfl

theorem after_throw (halt : Halt) (run : Run σ) : (throw halt : Rolling σ α).after run = run := rfl

section Bind

variable {m : Rolling σ α} {f : α → Rolling σ β} {run : Run σ}

theorem bind_of_ok {value : α} (h : m.outcome run = .ok value) :
    (m >>= f) run = f value (m.after run) := by
  unfold outcome at h
  change EStateM.bind m f run = _
  unfold after EStateM.bind
  cases hm : m run with
  | ok value' run' =>
    simp only [hm, Except.ok.injEq] at h ⊢
    rw [h]
  | error halt run' => simp only [hm, reduceCtorEq] at h

theorem bind_of_error {halt : Halt} (h : m.outcome run = .error halt) :
    (m >>= f) run = .error halt (m.after run) := by
  unfold outcome at h
  change EStateM.bind m f run = _
  unfold after EStateM.bind
  cases hm : m run with
  | ok value run' => simp only [hm, reduceCtorEq] at h
  | error halt' run' =>
    simp only [hm, Except.error.injEq] at h ⊢
    rw [h]

theorem outcome_bind_of_ok {value : α} (h : m.outcome run = .ok value) :
    (m >>= f).outcome run = (f value).outcome (m.after run) := by
  unfold outcome
  rw [bind_of_ok h]

theorem after_bind_of_ok {value : α} (h : m.outcome run = .ok value) :
    (m >>= f).after run = (f value).after (m.after run) := by
  unfold after
  rw [bind_of_ok h]
  rfl

theorem outcome_bind_of_error {halt : Halt} (h : m.outcome run = .error halt) :
    (m >>= f).outcome run = .error halt := by
  unfold outcome
  rw [bind_of_error h]

theorem after_bind_of_error {halt : Halt} (h : m.outcome run = .error halt) :
    (m >>= f).after run = m.after run := by
  unfold after
  rw [bind_of_error h]
  rfl

theorem exists_of_outcome_bind_eq_ok {value : β} (h : (m >>= f).outcome run = .ok value) :
    ∃ a, m.outcome run = .ok a ∧ (f a).outcome (m.after run) = .ok value := by
  cases hm : m.outcome run with
  | ok a =>
    rw [outcome_bind_of_ok hm] at h
    exact ⟨a, rfl, h⟩
  | error halt =>
    rw [outcome_bind_of_error hm] at h
    cases h

theorem get_bind (f : Run σ → Rolling σ β) (run : Run σ) : (get >>= f) run = f run run := rfl

end Bind

/-- The journal with a term that is complete. Its dice are those behind the first `before`. -/
def note (count sides : Value) (before : Nat) (sum : Value) : Rolling σ Value := do
  modify fun run =>
    let drawn := (run.rolls.extract before run.rolls.size).toList
    { run with journal := run.journal.push (.termRolled count.toInt.toNat sides drawn sum) }
  return sum

theorem after_note (count sides : Value) (before : Nat) (sum : Value) (run : Run σ) :
    (note count sides before sum).after run =
      { run with
        journal := run.journal.push
          (.termRolled count.toInt.toNat sides
            (run.rolls.extract before run.rolls.size).toList sum) } := rfl

section Terms

variable [Source σ]

/-- What is wrong with a dice term before its first die, after `rolled` dice in the whole roll. -/
def refusal? (ceiling : Option UInt32) (rolled : Nat) (count sides : Value) : Option EvalError :=
  if sides.toInt < 1 then some (.sidesNotPositive sides)
  else if count.toInt < 0 then some (.countNegative count)
  else (passedLimit? ceiling rolled count.toInt.toNat).map .tooManyDice

theorem outcome_die (sides : Value) (run : Run σ) :
    (die sides).outcome run =
      match (Source.draw 1 sides run.source).1 with
      | some value => .ok value
      | none => .error .exhausted := by
  unfold outcome die
  rcases Source.draw 1 sides run.source with ⟨_ | value, source⟩ <;> rfl

theorem after_die (sides : Value) (run : Run σ) :
    (die sides).after run =
      ⟨(Source.draw 1 sides run.source).2,
        match (Source.draw 1 sides run.source).1 with
        | some value => run.rolls.push value
        | none => run.rolls,
        run.journal⟩ := by
  unfold after die
  rcases Source.draw 1 sides run.source with ⟨_ | value, source⟩ <;> rfl

variable {ceiling : Option UInt32} {count sides : Value} {run : Run σ}

theorem term_refused {error : EvalError}
    (h : refusal? ceiling run.rolls.size count sides = some error) :
    term ceiling count sides run = (throw (Halt.fault error) : Rolling σ Value) run := by
  unfold refusal? at h
  unfold term
  split at h
  case isTrue hsides =>
    rw [if_pos hsides, Option.some.inj h]
  case isFalse hsides =>
    rw [if_neg hsides]
    split at h
    case isTrue hcount =>
      rw [if_pos hcount, Option.some.inj h]
    case isFalse hcount =>
      rw [if_neg hcount]
      obtain ⟨limit, hlimit, rfl⟩ := Option.map_eq_some_iff.mp h
      rw [get_bind, hlimit]

theorem term_accepted (h : refusal? ceiling run.rolls.size count sides = none) :
    term ceiling count sides run =
      (dice sides count.toInt.toNat 0 >>= note count sides run.rolls.size) run := by
  unfold refusal? at h
  unfold term
  split at h
  case isTrue hsides => cases h
  case isFalse hsides =>
    rw [if_neg hsides]
    split at h
    case isTrue hcount => cases h
    case isFalse hcount =>
      rw [if_neg hcount]
      rw [get_bind, Option.map_eq_none_iff.mp h]
      rfl

end Terms

/-- A relation between actions that holds of the parts of a roll, a dice term being one of them, and
of actions put together from such parts. -/
structure Compatible [Source σ] [Source τ] (ceiling ceiling' : Option UInt32)
    (Q : Rolling σ Value → Rolling τ Value → Prop) : Prop where
  pure (value : Value) : Q (pure value) (pure value)
  fault (error : EvalError) : Q (throw (.fault error)) (throw (.fault error))
  bind {m m' f f'} (first : Q m m') (next : ∀ value, Q (f value) (f' value)) :
    Q (m >>= f) (m' >>= f')
  term (count sides : Value) : Q (term ceiling count sides) (Rolling.term ceiling' count sides)

namespace Compatible

variable [Source σ] [Source τ] {ceiling ceiling' : Option UInt32}
  {Q : Rolling σ Value → Rolling τ Value → Prop}

theorem inRange (h : Compatible ceiling ceiling' Q) (value? : Option Value) :
    Q (inRange value?) (Rolling.inRange value?) := by
  cases value? with
  | none => exact h.fault .overflow
  | some value => exact h.pure value

theorem operands (h : Compatible ceiling ceiling' Q) {m₁ m₂ m₁' m₂'} {f f' : Value → Value → _}
    (left : Q m₁ m₁') (right : Q m₂ m₂') (last : ∀ x y, Q (f x y) (f' x y)) :
    Q (do f (← m₁) (← m₂)) (do f' (← m₁') (← m₂')) :=
  h.bind left fun x => h.bind right fun y => last x y

theorem roll (h : Compatible ceiling ceiling' Q) (e : Expr) :
    Q (e.roll ceiling) (e.roll ceiling') := by
  induction e with
  | num value => exact h.pure value
  | neg operand ih => exact h.bind ih fun x => h.inRange x.neg?
  | dice count sides ihcount ihsides => exact h.operands ihcount ihsides h.term
  | add left right ihleft ihright =>
    exact h.operands ihleft ihright fun x y => h.inRange (x.add? y)
  | sub left right ihleft ihright =>
    exact h.operands ihleft ihright fun x y => h.inRange (x.sub? y)
  | mul left right ihleft ihright =>
    exact h.operands ihleft ihright fun x y => h.inRange (x.mul? y)
  | div left right ihleft ihright =>
    apply h.operands ihleft ihright
    intro x y
    by_cases hy : y = 0
    · rw [if_pos hy, if_pos hy]
      exact h.fault .divisionByZero
    · rw [if_neg hy, if_neg hy]
      exact h.inRange (x.div? y)

end Compatible

end Rolling

namespace Roller

variable {σ : Type} [Source σ]

/-- The run that the roller begins with. -/
def start (roller : Roller σ) : Run σ := ⟨roller.source, #[], roller.journal⟩

/-- What is noted when an evaluation is over. -/
def closing (e : Expr) : Except Halt Evaluation → Array Event
  | .ok evaluation => #[.evaluated e evaluation]
  | .error _ => #[]

/-- The outcome of an evaluation, from the outcome of its roll and the dice rolled. -/
def evaluationOf (outcome : Except Halt Value) (rolls : Array Value) : Except Halt Evaluation :=
  match outcome with
  | .ok total => .ok ⟨total, rolls⟩
  | .error halt => .error halt

theorem evaluationOf_eq_ok_iff {outcome : Except Halt Value} {rolls : Array Value}
    {evaluation : Evaluation} :
    evaluationOf outcome rolls = .ok evaluation ↔
      outcome = .ok evaluation.total ∧ evaluation.rolls = rolls := by
  rcases evaluation with ⟨total, rolls⟩
  unfold evaluationOf
  cases outcome <;> simp [eq_comm]

theorem evaluationOf_eq_error_iff {outcome : Except Halt Value} {rolls : Array Value}
    {halt : Halt} : evaluationOf outcome rolls = .error halt ↔ outcome = .error halt := by
  unfold evaluationOf
  cases outcome <;> simp

theorem evaluate_eq (e : Expr) (roller : Roller σ) :
    roller.evaluate e =
      let run := (e.roll roller.ceiling).after roller.start
      let outcome := evaluationOf ((e.roll roller.ceiling).outcome roller.start) run.rolls
      (outcome, ⟨run.source, roller.ceiling, run.journal ++ closing e outcome⟩) := by
  unfold evaluate Rolling.outcome Rolling.after start
  cases e.roll roller.ceiling ⟨roller.source, #[], roller.journal⟩ with
  | ok total run =>
    simp only [evaluationOf, closing, Array.append_singleton]
  | error halt run =>
    simp only [evaluationOf, closing, Array.append_empty]

end Roller

end DiceNotation
