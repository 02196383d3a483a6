import DiceNotation.Proofs.Roll.Ceiling
import DiceNotation.Proofs.Session.History
import DiceNotation.Proofs.Session.Rolls

/-!
The life cycle of a session. Where a session stands is told by its history alone: by the text last
set and by how the rolls of that text ended. A result is always the outcome of the latest of these
rolls, and can be had again from its own dice.
-/
namespace DiceNotation

namespace Session

variable {σ τ : Type} {s : Session σ}

/-- Where an expression stands after the latest of its rolls, if there was one. -/
def State.latest (e : Expr) : Option (Except Failure Evaluation) → State
  | some (.ok evaluation) => .evaluated e evaluation
  | some (.error _) | none => .parsed e

/-- Whether the source ran out in one of some rolls. -/
def ranOut (outcomes : List (Except Failure Evaluation)) : Bool :=
  outcomes.any fun outcome => outcome matches .error .exhausted

theorem ranOut_append (outcomes : List (Except Failure Evaluation))
    (outcome : Except Failure Evaluation) :
    ranOut (outcomes ++ [outcome]) = (ranOut outcomes || outcome matches .error .exhausted) := by
  unfold ranOut
  rw [List.any_append, List.any_cons, List.any_nil, Bool.or_false]

/-- Where the text that is set and the outcomes of its rolls put a session. -/
def State.expected (text : Option String) (outcomes : List (Except Failure Evaluation)) : State :=
  match text with
  | none => .empty
  | some text =>
    if ranOut outcomes then .empty
    else match Expr.ofText text with
      | .ok e => .latest e outcomes.getLast?
      | .error error => .invalid error

namespace State

variable {text : Option String} {outcomes : List (Except Failure Evaluation)} {e : Expr}

theorem expr?_latest (e : Expr) (outcome? : Option (Except Failure Evaluation)) :
    (latest e outcome?).expr? = some e := by
  rcases outcome? with _ | _ | evaluation <;> rfl

theorem evaluation?_latest {outcome? : Option (Except Failure Evaluation)} {evaluation : Evaluation}
    (h : (latest e outcome?).evaluation? = some evaluation) : outcome? = some (.ok evaluation) := by
  rcases outcome? with _ | failure | evaluation'
  · cases h
  · cases h
  · cases h
    rfl

theorem expected_of_ranOut (hran : ranOut outcomes = true) : expected text outcomes = .empty := by
  cases text with
  | none => rfl
  | some t =>
    unfold expected
    simp only [hran, if_true]

theorem expected_of_ok {t : String} (hran : ranOut outcomes = false)
    (hread : Expr.ofText t = .ok e) :
    expected (some t) outcomes = latest e outcomes.getLast? := by
  unfold expected
  simp only [hran, hread, Bool.false_eq_true, if_false]

theorem expected_of_error {t : String} {error : SyntaxError} (hran : ranOut outcomes = false)
    (hread : Expr.ofText t = .error error) : expected (some t) outcomes = .invalid error := by
  unfold expected
  simp only [hran, hread, Bool.false_eq_true, if_false]

/-- There is an expression to roll only if the text is well-formed and no source has run out. -/
theorem exists_of_expr?_expected (h : (expected text outcomes).expr? = some e) :
    ∃ t, text = some t ∧ ranOut outcomes = false ∧ Expr.ofText t = .ok e := by
  cases text with
  | none => cases h
  | some t =>
    cases hran : ranOut outcomes with
    | true =>
      rw [expected_of_ranOut hran] at h
      cases h
    | false =>
      cases hread : Expr.ofText t with
      | error error =>
        rw [expected_of_error hran hread] at h
        cases h
      | ok e' =>
        rw [expected_of_ok hran hread, expr?_latest] at h
        cases h
        exact ⟨t, rfl, rfl, hread⟩

/-- A roll puts the session where its outcome says. -/
theorem expected_append_of_some (h : (expected text outcomes).expr? = some e)
    (outcome : Except Halt Evaluation) :
    expected text (outcomes ++ [outcome.mapError Failure.ofHalt]) = rolled e outcome := by
  obtain ⟨t, rfl, hran, hread⟩ := exists_of_expr?_expected h
  rcases outcome with (error | _) | evaluation
  · have hstill : ranOut (outcomes ++ [.error (.fault error)]) = false := by
      rw [ranOut_append, hran]
      rfl
    exact (expected_of_ok hstill hread).trans (congrArg (latest e) List.getLast?_concat)
  · apply expected_of_ranOut
    rw [ranOut_append, hran]
    rfl
  · have hstill : ranOut (outcomes ++ [.ok evaluation]) = false := by
      rw [ranOut_append, hran]
      rfl
    exact (expected_of_ok hstill hread).trans (congrArg (latest e) List.getLast?_concat)

/-- Where there is nothing to roll, a refusal changes nothing. -/
theorem expected_append_of_none (h : (expected text outcomes).expr? = none) :
    expected text (outcomes ++ [.error .notParsed]) = expected text outcomes := by
  have hsame : ranOut (outcomes ++ [.error .notParsed]) = ranOut outcomes := by
    rw [ranOut_append]
    exact Bool.or_false _
  cases text with
  | none => rfl
  | some t =>
    cases hran : ranOut outcomes with
    | true => rw [expected_of_ranOut hran, expected_of_ranOut (hsame.trans hran)]
    | false =>
      cases hread : Expr.ofText t with
      | error error => rw [expected_of_error hran hread, expected_of_error (hsame.trans hran) hread]
      | ok e =>
        rw [expected_of_ok hran hread, expr?_latest] at h
        cases h

/-- The outcome that a session holds is the latest one. -/
theorem getLast?_of_evaluation?_expected {evaluation : Evaluation}
    (h : (expected text outcomes).evaluation? = some evaluation) :
    outcomes.getLast? = some (.ok evaluation) := by
  cases hexpr : (expected text outcomes).expr? with
  | none =>
    rcases expr?_eq_none_iff.mp hexpr with hstate | ⟨error, hstate⟩
    · rw [hstate] at h
      cases h
    · rw [hstate] at h
      cases h
  | some e =>
    obtain ⟨t, rfl, hran, hread⟩ := exists_of_expr?_expected hexpr
    rw [expected_of_ok hran hread] at h
    exact evaluation?_latest h

end State

/-- A session is where its history puts it. A success, once it is the latest outcome, is what the
session holds, and comes again from its dice. -/
structure Reflects (text : Option String) (outcomes : List (Except Failure Evaluation))
    (s : Session σ) : Prop where
  holds : s.text = text
  stands : s.state = .expected text outcomes
  latest {evaluation : Evaluation} (h : outcomes.getLast? = some (.ok evaluation)) :
    s.state.evaluation? = some evaluation
  again {e : Expr} {evaluation : Evaluation} (h : s.state = .evaluated e evaluation) :
    ((Roller.mk (Supply.listed evaluation.rolls.toList) none #[]).evaluate e).1 = .ok evaluation

namespace Reflects

variable {text : Option String} {outcomes : List (Except Failure Evaluation)}

/-- Nothing but the text and the state counts. -/
theorem congr {s' : Session τ} (h : Reflects text outcomes s) (htext : s'.text = s.text)
    (hstate : s'.state = s.state) : Reflects text outcomes s' := by
  refine ⟨htext.trans h.holds, hstate.trans h.stands, ?_, ?_⟩
  · rw [hstate]
    exact h.latest
  · rw [hstate]
    exact h.again

theorem new (source : σ) : Reflects none [] (Session.new source) :=
  ⟨rfl, rfl, nofun, nofun⟩

theorem set (t : String) (s : Session σ) : Reflects (some t) [] (s.set t).2 := by
  unfold Session.set
  cases hread : Expr.ofText t with
  | ok e =>
    have hstate : State.expected (some t) [] = .parsed e := State.expected_of_ok rfl hread
    exact ⟨rfl, hstate.symm, nofun, nofun⟩
  | error error =>
    have hstate : State.expected (some t) [] = .invalid error := State.expected_of_error rfl hread
    exact ⟨rfl, hstate.symm, nofun, nofun⟩

theorem rollWith [Source τ] (h : Reflects text outcomes s) (source : τ) :
    Reflects text (outcomes ++ [(s.rollWith source).1]) (s.rollWith source).2.1 := by
  rcases rollWith_cases s source with
    ⟨hexpr, hroll⟩ | ⟨e, outcome, roller, journal, hexpr, hevaluate, hroll⟩
  · rw [hroll]
    refine ⟨h.holds, ?_, ?_, h.again⟩
    · rw [State.expected_append_of_none (h.stands ▸ hexpr)]
      exact h.stands
    · intro evaluation hlatest
      rw [List.getLast?_concat] at hlatest
      cases hlatest
  · -- Only a success can be the latest outcome that counts, and it is what the session holds now.
    rw [hroll]
    refine ⟨h.holds, ?_, ?_, ?_⟩
    · rw [State.expected_append_of_some (h.stands ▸ hexpr)]
    · intro evaluation hlatest
      rw [List.getLast?_concat] at hlatest
      rcases outcome with (error | _) | evaluation'
      · cases hlatest
      · cases hlatest
      · cases hlatest
        rfl
    · intro e' evaluation hstate
      rcases outcome with (error | _) | evaluation'
      · cases hstate
      · cases hstate
      · cases hstate
        exact Roller.evaluate_listing_rolls (congrArg Prod.fst hevaluate)

theorem roll [Source σ] (h : Reflects text outcomes s) :
    Reflects text (outcomes ++ [s.roll.1]) s.roll.2 :=
  (h.rollWith s.source).congr rfl rfl

/-- A session that is opened has a text, if any, that has not been rolled. -/
theorem opening (o : Opening) (source : σ) : Reflects o.text [] (o.session source) := by
  cases o with
  | new => exact new source
  | built ceiling text =>
    cases text with
    | none => exact (new source).congr rfl rfl
    | some t => exact set t { Session.new source with ceiling }

end Reflects

namespace World

variable {σ ι : Type} {τ : ι → Type} [Source σ] [∀ i, Source (τ i)] [DecidableEq ι]

theorem perform_refused_iff (w : World σ τ) (op : Operation ι) :
    (w.perform op).1 = .rolled (.error .notParsed) ↔
      op.isRoll = true ∧ w.session.state.expr? = none := by
  cases op with
  | set | setCeiling => simp [perform, Operation.isRoll]
  | ask query => cases query <;> simp [perform, ask, Operation.isRoll]
  | roll => simp [perform_roll, roll_eq_notParsed_iff, Operation.isRoll]
  | rollWith i => simp [perform_rollWith, rollWith_eq_notParsed_iff, Operation.isRoll]

/-- A roll that is refused leaves everything as it is, the sources included. -/
theorem perform_of_refused {w : World σ τ} {op : Operation ι}
    (h : (w.perform op).1 = .rolled (.error .notParsed)) : (w.perform op).2 = w := by
  obtain ⟨hroll, hexpr⟩ := (perform_refused_iff w op).mp h
  cases op with
  | set | setCeiling | ask => cases hroll
  | roll => rw [perform_roll, roll_of_none hexpr]
  | rollWith i => rw [perform_rollWith, rollWith_of_none _ hexpr, Function.update_eq_self]

theorem perform_ne_noResult (w : World σ τ) (op : Operation ι) :
    (w.perform op).1 ≠ .rolled (.error .noResult) := by
  cases op with
  | set | setCeiling => simp [perform]
  | ask query => cases query <;> simp [perform, ask]
  | roll => simp [perform_roll, roll_ne_noResult]
  | rollWith i => simp [perform_rollWith, rollWith_ne_noResult]

/-- One operation more. -/
theorem reflects_perform {w : World σ τ} {opening : Option String}
    {history : List (Operation ι × Answer)}
    (h : Reflects (History.text opening history) (History.outcomes history) w.session)
    (op : Operation ι) :
    Reflects (History.text opening (history ++ [(op, (w.perform op).1)]))
      (History.outcomes (history ++ [(op, (w.perform op).1)])) (w.perform op).2.session := by
  cases op with
  | set t =>
    rw [History.text_set rfl, History.outcomes_set rfl]
    exact .set t w.session
  | setCeiling ceiling =>
    rw [History.text_append rfl, History.outcomes_still rfl rfl]
    exact h.congr rfl rfl
  | roll =>
    rw [History.text_append rfl, History.outcomes_rolled rfl rfl]
    exact h.roll
  | rollWith i =>
    rw [History.text_append rfl, History.outcomes_rolled rfl rfl]
    exact h.rollWith (w.sources i)
  | ask query =>
    -- No query answers with the outcome of a roll.
    have hnone :
        History.outcome? ((.ask query : Operation ι), (w.perform (.ask query)).1) = none := by
      cases query <;> rfl
    rw [History.text_append rfl, History.outcomes_still rfl hnone]
    exact h

/-- From wherever a history reflects the session, so does the longer one after some operations. -/
theorem reflects_run {w : World σ τ} {opening : Option String}
    {history : List (Operation ι × Answer)}
    (h : Reflects (History.text opening history) (History.outcomes history) w.session)
    (ops : List (Operation ι)) :
    Reflects (History.text opening (history ++ (w.run ops).1))
      (History.outcomes (history ++ (w.run ops).1)) (w.run ops).2.session := by
  induction ops generalizing w history with
  | nil =>
    rw [run, List.append_nil]
    exact h
  | cons op ops ih =>
    -- The first operation makes the history longer, and the others begin behind it.
    have hnext := ih (reflects_perform h op)
    rw [List.append_assoc] at hnext
    exact hnext

end World

section Results

theorem evaluation_eq_ok_iff {evaluation : Evaluation} :
    s.evaluation = .ok evaluation ↔ s.state.evaluation? = some evaluation := by
  unfold Session.evaluation
  cases s.state.evaluation? <;> simp

theorem result_eq_ok_iff {total : Value} :
    s.result = .ok total ↔
      ∃ evaluation, s.evaluation = .ok evaluation ∧ evaluation.total = total := by
  unfold result
  cases s.evaluation <;> simp [Except.map]

theorem Reflects.evaluation_eq_ok_iff {text : Option String}
    {outcomes : List (Except Failure Evaluation)} (h : Reflects text outcomes s)
    {evaluation : Evaluation} :
    s.evaluation = .ok evaluation ↔ outcomes.getLast? = some (.ok evaluation) := by
  rw [Session.evaluation_eq_ok_iff]
  constructor
  · intro hheld
    exact State.getLast?_of_evaluation?_expected (h.stands ▸ hheld)
  · exact h.latest

end Results

section Runs

variable {ι : Type} {τ : ι → Type} [Source σ] [∀ i, Source (τ i)] [DecidableEq ι]

/-- Over a whole run the session holds the text last set and stands where the rolls since then put
it. It has a result exactly if the latest of them succeeded, and then this one. It refuses to roll
exactly if it has no expression, and changes nothing then. -/
theorem run_lifecycle (opening : Opening) (source : σ) (sources : ∀ i, τ i)
    (ops : List (Operation ι)) :
    let run := (World.mk (opening.session source) sources).run ops
    let text := History.text opening.text run.1
    let outcomes := History.outcomes run.1
    let w := run.2
    w.session.text = text ∧
      w.session.state = .expected text outcomes ∧
      (∀ evaluation, w.session.evaluation = .ok evaluation ↔
        outcomes.getLast? = some (.ok evaluation)) ∧
      (∀ total, w.session.result = .ok total ↔
        ∃ evaluation, outcomes.getLast? = some (.ok evaluation) ∧ evaluation.total = total) ∧
      (∀ op, ((w.perform op).1 = .rolled (.error .notParsed) ↔
          op.isRoll = true ∧
            (w.session.state = .empty ∨ ∃ error, w.session.state = .invalid error)) ∧
        ((w.perform op).1 = .rolled (.error .notParsed) → (w.perform op).2 = w) ∧
        (w.perform op).1 ≠ .rolled (.error .noResult)) ∧
      ∀ e evaluation, w.session.state = .evaluated e evaluation →
        ((Roller.mk (Supply.listed evaluation.rolls.toList) none #[]).evaluate e).1 =
          .ok evaluation := by
  intro run text outcomes w
  have hopened : Reflects (History.text opening.text ([] : List (Operation ι × Answer)))
      (History.outcomes ([] : List (Operation ι × Answer)))
      (World.mk (opening.session source) sources).session := .opening opening source
  have hreflects : Reflects text outcomes w.session := World.reflects_run hopened ops
  refine ⟨hreflects.holds, hreflects.stands, ?_, ?_, ?_, ?_⟩
  · intro evaluation
    exact hreflects.evaluation_eq_ok_iff
  · intro total
    simp only [result_eq_ok_iff, hreflects.evaluation_eq_ok_iff]
  · intro op
    rw [← State.expr?_eq_none_iff]
    exact ⟨World.perform_refused_iff w op, World.perform_of_refused, World.perform_ne_noResult w op⟩
  · intro e evaluation
    exact hreflects.again

end Runs

end Session

end DiceNotation
