import DiceNotation.Session

/-!
What one roll does to a session. It is refused if there is no expression, and then nothing changes.
Else its answer and the state afterwards are told by the outcome of the evaluation.
-/
namespace DiceNotation

namespace Session

variable {σ τ : Type} {s : Session σ}

/-- How the answer to a roll tells of a halt. -/
def Failure.ofHalt : Halt → Failure
  | .fault error => .fault error
  | .exhausted => .exhausted

/-- Where a roll of an expression leaves a session. -/
def State.rolled (e : Expr) : Except Halt Evaluation → State
  | .ok evaluation => .evaluated e evaluation
  | .error (.fault _) => .parsed e
  | .error .exhausted => .empty

/-- What is noted when a roll of a session is over. -/
def closing (e : Expr) : Except Halt Evaluation → Array Event
  | .ok evaluation => #[.sessionRolled e evaluation]
  | .error (.fault error) => #[.sessionFailed e error]
  | .error .exhausted => #[]

theorem State.expr?_eq_none_iff {state : State} :
    state.expr? = none ↔ state = .empty ∨ ∃ error, state = .invalid error := by
  cases state <;> simp [State.expr?]

section With

variable [Source τ]

theorem rollWith_of_none (source : τ) (h : s.state.expr? = none) :
    s.rollWith source = (.error .notParsed, s, source) := by
  unfold rollWith
  rw [h]

/-- A roll of an expression is told by its evaluation. -/
theorem rollWith_eq {e : Expr} (source : τ) (h : s.state.expr? = some e) :
    s.rollWith source =
      let (outcome, roller) := (Roller.mk source s.ceiling s.journal).evaluate e
      (outcome.mapError Failure.ofHalt,
        { s with state := .rolled e outcome, journal := roller.journal ++ closing e outcome },
        roller.source) := by
  unfold rollWith
  simp only [h]
  rcases (Roller.mk source s.ceiling s.journal).evaluate e with
    ⟨(error | _) | evaluation, roller⟩
  · simp only [closing, Array.append_singleton]
    rfl
  · simp only [closing, Array.append_empty]
    rfl
  · simp only [closing, Array.append_singleton]
    rfl

theorem rollWith_of_some {e : Expr} {source : τ} {outcome : Except Halt Evaluation}
    {roller : Roller τ} (h : s.state.expr? = some e)
    (hevaluate : (Roller.mk source s.ceiling s.journal).evaluate e = (outcome, roller)) :
    ∃ journal, s.rollWith source =
      (outcome.mapError Failure.ofHalt, { s with state := .rolled e outcome, journal },
        roller.source) :=
  ⟨_, by rw [rollWith_eq source h, hevaluate]⟩

/-- All that a roll can do. -/
theorem rollWith_cases (s : Session σ) (source : τ) :
    s.state.expr? = none ∧ s.rollWith source = (.error .notParsed, s, source) ∨
      ∃ e outcome roller journal, s.state.expr? = some e ∧
        (Roller.mk source s.ceiling s.journal).evaluate e = (outcome, roller) ∧
        s.rollWith source =
          (outcome.mapError Failure.ofHalt, { s with state := .rolled e outcome, journal },
            roller.source) := by
  cases hexpr : s.state.expr? with
  | none => exact .inl ⟨rfl, rollWith_of_none source hexpr⟩
  | some e =>
    rcases hevaluate : (Roller.mk source s.ceiling s.journal).evaluate e with ⟨outcome, roller⟩
    obtain ⟨journal, hroll⟩ := rollWith_of_some hexpr hevaluate
    exact .inr ⟨e, outcome, roller, journal, rfl, hevaluate, hroll⟩

theorem rollWith_eq_notParsed_iff (s : Session σ) (source : τ) :
    (s.rollWith source).1 = .error .notParsed ↔ s.state.expr? = none := by
  rcases rollWith_cases s source with
    ⟨hexpr, hroll⟩ | ⟨e, outcome, roller, journal, hexpr, -, hroll⟩
  · rw [hroll, hexpr]
    exact iff_of_true rfl rfl
  · rw [hroll, hexpr]
    refine iff_of_false ?_ nofun
    rcases outcome with (error | _) | evaluation <;> rintro ⟨⟩

theorem rollWith_ne_noResult (s : Session σ) (source : τ) :
    (s.rollWith source).1 ≠ .error .noResult := by
  rcases rollWith_cases s source with ⟨-, hroll⟩ | ⟨e, outcome, roller, journal, -, -, hroll⟩
  · rw [hroll]
    rintro ⟨⟩
  · rw [hroll]
    rcases outcome with (error | _) | evaluation <;> rintro ⟨⟩

end With

section Own

variable [Source σ]

/-- A roll from the session's own source is a roll from a source like it. -/
theorem roll_eq (s : Session σ) :
    s.roll = ((s.rollWith s.source).1,
      { (s.rollWith s.source).2.1 with source := (s.rollWith s.source).2.2 }) := rfl

theorem roll_of_none (h : s.state.expr? = none) : s.roll = (.error .notParsed, s) := by
  rw [roll_eq, rollWith_of_none s.source h]

theorem roll_eq_notParsed_iff (s : Session σ) :
    s.roll.1 = .error .notParsed ↔ s.state.expr? = none :=
  rollWith_eq_notParsed_iff s s.source

theorem roll_ne_noResult (s : Session σ) : s.roll.1 ≠ .error .noResult :=
  rollWith_ne_noResult s s.source

/-- A text that is rolled once gives the total of one evaluation without a ceiling. -/
theorem once_of_ok (source : σ) {text : String} {e : Expr} (h : Expr.ofText text = .ok e) :
    (once source text).1 =
      (((Roller.mk source none (Event.ofReading text)).evaluate e).1.map
        Evaluation.total).mapError Failure.ofHalt := by
  let s : Session σ := ⟨some text, .parsed e, source, none, Event.ofReading text⟩
  have hset : (new source).set text = (.ok (), s) := by
    simp only [set, h, new, Array.empty_append, s]
  have hroll : s.rollWith s.source = _ := rollWith_eq source rfl
  unfold once
  simp only [hset, roll_eq, hroll]
  rcases (Roller.mk source s.ceiling s.journal).evaluate e with
    ⟨(error | _) | evaluation, roller⟩
  · rfl
  · rfl
  · rfl

end Own

end Session

end DiceNotation
