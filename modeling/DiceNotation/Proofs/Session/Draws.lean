import DiceNotation.Proofs.Roll.Replay
import DiceNotation.Proofs.Session.Lifecycle

/-!
Which values come from which source. A roll draws its dice, also those of a roll that fails or runs
out: with these values listed it goes the same way again and uses them up, and with fewer of them it
runs out. Over a run with recorders in place of all sources, a source has given the dice of the
rolls that it was given to, one roll after the other, and nothing else.

A roll with a source beside the session's own does what a roll of the session does with a source
like it, and leaves the session's own source as it is.
-/
namespace DiceNotation

variable {σ τ ρ : Type}

/-- Whether related sources give the same values and stay related. -/
def Source.Mirrors [Source σ] [Source τ] (R : σ → τ → Prop) : Prop :=
  ∀ s t, R s t → ∀ low high, (draw low high s).1 = (draw low high t).1 ∧
    R (draw low high s).2 (draw low high t).2

open Request

theorem Answers.mirrored [Source σ] [Source τ] {R : σ → τ → Prop} (hmirrors : Source.Mirrors R)
    {s s' : σ} {requests : List Request} (h : Answers s requests s') {t : τ} (hst : R s t) :
    ∃ t', Answers t requests t' ∧ R s' t' := by
  induction h generalizing t with
  | nil s => exact ⟨t, .nil t, hst⟩
  | @cons s s' s'' sides answer requests first rest ih =>
    obtain ⟨hanswer, hnext⟩ := hmirrors s t hst 1 sides
    rw [first] at hanswer hnext
    obtain ⟨t', hrequests, hlast⟩ := ih hnext
    exact ⟨t', .cons (Prod.ext hanswer.symm rfl) hrequests, hlast⟩

namespace Session

section Rolls

variable [Source τ] [Source ρ] {s : Session σ} {e : Expr}

/-- The dice that a roll of the session rolls with a source, up to its end or to where it halts. -/
def drawn (source : τ) (s : Session σ) : List Value :=
  match s.state.expr? with
  | none => []
  | some e => ((e.roll s.ceiling).after ⟨source, #[], s.journal⟩).rolls.toList

theorem drawn_of_none (source : τ) (h : s.state.expr? = none) : s.drawn source = [] := by
  unfold drawn
  rw [h]

theorem drawn_of_some (source : τ) (h : s.state.expr? = some e) :
    s.drawn source = (Roller.mk source s.ceiling s.journal).drawn e := by
  unfold drawn
  rw [h, Roller.drawn_eq]
  rfl

theorem rollWith_source (source : τ) (h : s.state.expr? = some e) :
    (s.rollWith source).2.2 =
      ((Roller.mk source s.ceiling s.journal).evaluate e).2.source := by
  rw [rollWith_eq source h]

theorem rollWith_eq_exhausted_iff (source : τ) (h : s.state.expr? = some e) :
    (s.rollWith source).1 = .error .exhausted ↔
      ((Roller.mk source s.ceiling s.journal).evaluate e).1 = .error .exhausted := by
  rw [rollWith_eq source h]
  rcases (Roller.mk source s.ceiling s.journal).evaluate e with
    ⟨(error | _) | evaluation, roller⟩
  · exact iff_of_false nofun nofun
  · exact iff_of_true rfl rfl
  · exact iff_of_false nofun nofun

/-- Of its source a roll shows no more than the evaluation does. -/
theorem rollWith_congr {source : τ} {t t' : ρ} (h : s.state.expr? = some e)
    (hevaluate : (Roller.mk t s.ceiling s.journal).evaluate e =
      (((Roller.mk source s.ceiling s.journal).evaluate e).1,
        ⟨t', s.ceiling, ((Roller.mk source s.ceiling s.journal).evaluate e).2.journal⟩)) :
    s.rollWith t = ((s.rollWith source).1, (s.rollWith source).2.1, t') := by
  rw [rollWith_eq source h, rollWith_eq t h, hevaluate]

/-- The requests that a roll makes of its source. With any source of type `ρ` that answers them in
the same way it does the same. -/
structure Transcript (ρ : Type) [Source ρ] (s : Session σ) (source : τ) (requests : List Request) :
    Prop where
  answers : Answers source requests (s.rollWith source).2.2
  dice : s.drawn source = values requests
  again {t t' : ρ} (h : Answers t requests t') :
    s.rollWith t = ((s.rollWith source).1, (s.rollWith source).2.1, t')

theorem exists_transcript (ρ : Type) [Source ρ] (s : Session σ) (source : τ) :
    ∃ requests, Transcript ρ s source requests := by
  cases hexpr : s.state.expr? with
  | none =>
    have hroll := rollWith_of_none source hexpr
    refine ⟨[], ?_, drawn_of_none source hexpr, ?_⟩
    · rw [hroll]
      exact .nil source
    · intro t t' ht
      cases ht
      rw [hroll]
      exact rollWith_of_none t hexpr
  | some e =>
    obtain ⟨requests, events, h⟩ :=
      Roller.exists_transcript ρ e (Roller.mk source s.ceiling s.journal)
    refine ⟨requests, ?_, ?_, ?_⟩
    · rw [rollWith_source source hexpr]
      exact h.source
    · rw [drawn_of_some source hexpr, Roller.drawn_eq]
      exact h.dice
    · intro t t' ht
      apply rollWith_congr hexpr
      rw [h.again ht s.journal, h.journal]

/-- A recorder changes nothing of a roll but that it records. -/
theorem rollWith_recorder (s : Session σ) (source : τ) (given : List Value) :
    s.rollWith (Recorder.mk source given) =
      ((s.rollWith source).1, (s.rollWith source).2.1,
        ⟨(s.rollWith source).2.2, given ++ s.drawn source⟩) := by
  obtain ⟨requests, h⟩ := exists_transcript (Recorder τ) s source
  rw [h.dice]
  exact h.again (h.answers.recorded given)

theorem toList_rolls_eq_drawn {source : τ} {evaluation : Evaluation}
    (h : (s.rollWith source).1 = .ok evaluation) : evaluation.rolls.toList = s.drawn source := by
  rcases rollWith_cases s source with
    ⟨-, hroll⟩ | ⟨e, outcome, roller, journal, hexpr, hevaluate, hroll⟩
  · rw [hroll] at h
    cases h
  · rw [hroll] at h
    rcases outcome with (error | _) | evaluation'
    · cases h
    · cases h
    · cases h
      rw [drawn_of_some source hexpr]
      exact Roller.toList_rolls_eq_drawn (congrArg Prod.fst hevaluate)

/-- The dice of a roll are what it takes from its source, whether it succeeds, fails or runs out:
these values are its answers, they lead it the same way again, and nothing less does. -/
structure Draws (s : Session σ) (source : τ) : Prop where
  left : ∀ e, s.state.expr? = some e →
    (s.rollWith source).2.2 = ((e.roll s.ceiling).after ⟨source, #[], s.journal⟩).source
  answers : ∃ requests, Answers source requests (s.rollWith source).2.2 ∧
    s.drawn source = values requests
  again : s.rollWith (Supply.listed (s.drawn source)) =
    ((s.rollWith source).1, (s.rollWith source).2.1, .listed [])
  more : (s.rollWith source).1 ≠ .error .exhausted → ∀ rest,
    s.rollWith (Supply.listed (s.drawn source ++ rest)) =
      ((s.rollWith source).1, (s.rollWith source).2.1, .listed rest)
  less : ∀ part rest, s.drawn source = part ++ rest →
    rest ≠ [] ∨ (s.rollWith source).1 = .error .exhausted →
      (s.rollWith (Supply.listed part)).1 = .error .exhausted ∧
        (s.rollWith (Supply.listed part)).2.2 = .listed []

theorem draws_of_none (source : τ) (h : s.state.expr? = none) : s.Draws source where
  left e hexpr := by
    rw [h] at hexpr
    cases hexpr
  answers := by
    obtain ⟨requests, htranscript⟩ := exists_transcript τ s source
    exact ⟨requests, htranscript.answers, htranscript.dice⟩
  again := by
    rw [drawn_of_none source h, rollWith_of_none source h]
    exact rollWith_of_none _ h
  more _ rest := by
    rw [drawn_of_none source h, rollWith_of_none source h]
    exact rollWith_of_none _ h
  less part rest hdrawn hshort := by
    rw [drawn_of_none source h] at hdrawn
    rw [rollWith_of_none source h] at hshort
    rcases hshort with hrest | ⟨⟨⟩⟩
    exact absurd (List.append_eq_nil_iff.mp hdrawn.symm).2 hrest

/-- A list of values leads a roll as it leads the evaluation. -/
theorem rollWith_listed {source : τ} {values rest : List Value} (h : s.state.expr? = some e)
    (hlisting : ((Roller.mk source s.ceiling s.journal).listing values).evaluate e =
      (((Roller.mk source s.ceiling s.journal).evaluate e).1,
        ((Roller.mk source s.ceiling s.journal).evaluate e).2.listing rest)) :
    s.rollWith (Supply.listed values) =
      ((s.rollWith source).1, (s.rollWith source).2.1, .listed rest) := by
  apply rollWith_congr h
  rw [Roller.listing, Roller.listing, Roller.ceiling_evaluate] at hlisting
  exact hlisting

theorem draws_of_some (source : τ) (h : s.state.expr? = some e) : s.Draws source where
  left e' hexpr := by
    obtain rfl : e = e' := Option.some.inj (h.symm.trans hexpr)
    rw [rollWith_source source h, Roller.evaluate_eq]
    rfl
  answers := by
    obtain ⟨requests, htranscript⟩ := exists_transcript τ s source
    exact ⟨requests, htranscript.answers, htranscript.dice⟩
  again := by
    rw [drawn_of_some source h]
    exact rollWith_listed h (Roller.evaluate_listing_drawn e _)
  more hhalt rest := by
    rw [ne_eq, rollWith_eq_exhausted_iff source h] at hhalt
    rw [drawn_of_some source h]
    exact rollWith_listed h (Roller.evaluate_listing hhalt rest)
  less part rest hdrawn hshort := by
    rw [drawn_of_some source h] at hdrawn
    rw [rollWith_eq_exhausted_iff source h] at hshort
    rw [rollWith_eq_exhausted_iff _ h, rollWith_source _ h]
    exact Roller.evaluate_listing_part hdrawn hshort

theorem draws (s : Session σ) (source : τ) : s.Draws source := by
  cases hexpr : s.state.expr? with
  | none => exact draws_of_none source hexpr
  | some e => exact draws_of_some source hexpr

/-- A roll with another source never touches the session's own. -/
theorem source_rollWith (s : Session σ) (source : τ) :
    (s.rollWith source).2.1.source = s.source := by
  rcases rollWith_cases s source with ⟨-, hroll⟩ | ⟨e, outcome, roller, journal, -, -, hroll⟩
  · rw [hroll]
  · rw [hroll]

end Rolls

section Own

variable [Source σ] [Source ρ]

/-- A roll with a copy of the session's own source does to the copy what a roll of the session does
to the source. -/
theorem rollWith_own (s : Session σ) :
    s.rollWith s.source = (s.roll.1, { s.roll.2 with source := s.source }, s.roll.2.source) := by
  have hsource := source_rollWith s s.source
  rw [roll_eq]
  rcases hroll : s.rollWith s.source with ⟨answer, ⟨text, state, source, ceiling, journal⟩, last⟩
  rw [hroll] at hsource
  have hsame : source = s.source := hsource
  rw [hsame]

theorem rollWith_mirrored {R : σ → ρ → Prop} (hmirrors : Source.Mirrors R) {s : Session σ}
    {source : ρ} (h : R s.source source) :
    (s.rollWith source).1 = s.roll.1 ∧
      (s.rollWith source).2.1 = { s.roll.2 with source := s.source } ∧
      R s.roll.2.source (s.rollWith source).2.2 := by
  obtain ⟨requests, htranscript⟩ := exists_transcript ρ s s.source
  obtain ⟨source', hmirrored, hlast⟩ := htranscript.answers.mirrored hmirrors h
  rw [htranscript.again hmirrored, rollWith_own]
  rw [rollWith_own] at hlast
  exact ⟨rfl, rfl, hlast⟩

end Own

/-- The session with a recorder in place of its source. -/
def recorded (given : List Value) (s : Session σ) : Session (Recorder σ) :=
  ⟨s.text, s.state, ⟨s.source, given⟩, s.ceiling, s.journal⟩

theorem set_recorded (given : List Value) (s : Session σ) (text : String) :
    (s.recorded given).set text = ((s.set text).1, (s.set text).2.recorded given) := by
  unfold set
  cases Expr.ofText text with
  | ok e => rfl
  | error error => rfl

theorem source_set (text : String) (s : Session σ) : (s.set text).2.source = s.source := by
  unfold set
  cases Expr.ofText text with
  | ok e => rfl
  | error error => rfl

theorem ask_recorded (given : List Value) (s : Session σ) (query : Query) :
    (s.recorded given).ask query = s.ask query := by
  cases query <;> rfl

/-- The session's own source is not looked at by a roll with another one. -/
theorem recorded_rollWith [Source τ] (given : List Value) (s : Session σ) (source : τ) :
    (s.recorded given).rollWith source =
      ((s.rollWith source).1, (s.rollWith source).2.1.recorded given, (s.rollWith source).2.2) := by
  have hstate : (s.recorded given).state = s.state := rfl
  cases hexpr : s.state.expr? with
  | none => rw [rollWith_of_none source hexpr, rollWith_of_none source (hstate ▸ hexpr)]
  | some e =>
    rw [rollWith_eq source hexpr, rollWith_eq source (hstate ▸ hexpr)]
    rfl

theorem roll_recorded [Source σ] (given : List Value) (s : Session σ) :
    (s.recorded given).roll = (s.roll.1, s.roll.2.recorded (given ++ s.drawn s.source)) := by
  have hsource : (s.recorded given).source = ⟨s.source, given⟩ := rfl
  rw [roll_eq, roll_eq, hsource, recorded_rollWith, rollWith_recorder]
  rfl

/-- The source that an operation rolls with, if it does: the session's own, which is `none`, or a
further one. -/
def Operation.source? {ι : Type} : Operation ι → Option (Option ι)
  | roll => some none
  | rollWith i => some (some i)
  | set _ | setCeiling _ | ask _ => none

namespace World

variable {ι : Type} {τ : ι → Type} [Source σ] [∀ i, Source (τ i)]

/-- The values that an operation draws, from whichever source. -/
def drawn (w : World σ τ) : Operation ι → List Value
  | .roll => w.session.drawn w.session.source
  | .rollWith i => w.session.drawn (w.sources i)
  | .set _ | .setCeiling _ | .ask _ => []

variable [DecidableEq ι]

/-- The values that an operation draws from the source `place`. -/
def drawnAt (place : Option ι) (w : World σ τ) (op : Operation ι) : List Value :=
  if op.source? = some place then w.drawn op else []

theorem drawnAt_of_ne {op : Operation ι} {place : Option ι} (h : op.source? ≠ some place)
    (w : World σ τ) : w.drawnAt place op = [] := if_neg h

theorem drawnAt_of_still {op : Operation ι} (h : op.source? = none) (place : Option ι)
    (w : World σ τ) : w.drawnAt place op = [] := by
  apply drawnAt_of_ne
  simp only [h, ne_eq, reduceCtorEq, not_false_eq_true]

/-- The values that the rolls with the source `place` draw in a run, one after the other. -/
def drawnFrom (place : Option ι) : World σ τ → List (Operation ι) → List Value
  | _, [] => []
  | w, op :: ops => w.drawnAt place op ++ (w.perform op).2.drawnFrom place ops

/-- The world with recorders in place of all sources, which have kept `given` so far. -/
def recorded (given : Option ι → List Value) (w : World σ τ) :
    World (Recorder σ) fun i => Recorder (τ i) :=
  ⟨w.session.recorded (given none), fun i => ⟨w.sources i, given (some i)⟩⟩

theorem perform_recorded (w : World σ τ) (op : Operation ι) (given : Option ι → List Value) :
    (w.recorded given).perform op =
      ((w.perform op).1, (w.perform op).2.recorded fun place =>
        given place ++ w.drawnAt place op) := by
  have hsession : (w.recorded given).session = w.session.recorded (given none) := rfl
  cases op with
  | set text =>
    have hstill place : w.drawnAt place (.set text) = [] := drawnAt_of_still rfl place w
    simp only [hstill, List.append_nil, perform, hsession, set_recorded]
    rfl
  | setCeiling ceiling =>
    have hstill place : w.drawnAt place (.setCeiling ceiling) = [] := drawnAt_of_still rfl place w
    simp only [hstill, List.append_nil]
    rfl
  | ask query =>
    have hstill place : w.drawnAt place (.ask query) = [] := drawnAt_of_still rfl place w
    simp only [hstill, List.append_nil, perform, hsession, ask_recorded]
  | roll =>
    have hown : w.drawnAt none .roll = w.session.drawn w.session.source := if_pos rfl
    have hother (i : ι) : w.drawnAt (some i) .roll = [] :=
      drawnAt_of_ne (by simp [Operation.source?]) w
    rw [perform_roll, perform_roll, hsession, roll_recorded]
    simp only [recorded, hown, hother, List.append_nil]
  | rollWith i =>
    have hsource : (w.recorded given).sources i = ⟨w.sources i, given (some i)⟩ := rfl
    have hown : w.drawnAt none (.rollWith i) = [] :=
      drawnAt_of_ne (by simp [Operation.source?]) w
    rw [perform_rollWith, perform_rollWith, hsession, hsource, recorded_rollWith,
      rollWith_recorder]
    simp only [recorded, hown, List.append_nil, Prod.mk.injEq, mk.injEq, true_and]
    funext j
    by_cases hj : j = i
    · subst hj
      have hgiven : w.drawnAt (some j) (.rollWith j) = w.session.drawn (w.sources j) := if_pos rfl
      simp only [Function.update_self, hgiven]
    · have hother : w.drawnAt (some j) (.rollWith i) = [] :=
        drawnAt_of_ne (by simp [Operation.source?, Ne.symm hj]) w
      simp only [Function.update_of_ne hj, hother, List.append_nil]

/-- Over a run recorders keep what the rolls draw, and change nothing else. -/
theorem run_recorded (w : World σ τ) (ops : List (Operation ι)) (given : Option ι → List Value) :
    (w.recorded given).run ops =
      ((w.run ops).1, (w.run ops).2.recorded fun place =>
        given place ++ w.drawnFrom place ops) := by
  induction ops generalizing w given with
  | nil =>
    simp only [run, drawnFrom, List.append_nil]
  | cons op ops ih =>
    simp only [run, drawnFrom, perform_recorded, ih, List.append_assoc]

/-- An operation that is no roll draws nothing, and neither does a roll that is refused. -/
theorem drawn_of_unrolled {w : World σ τ} {op : Operation ι}
    (h : op.isRoll = false ∨ (w.perform op).1 = .rolled (.error .notParsed)) :
    w.drawn op = [] := by
  rcases h with hstill | hrefused
  · cases op with
    | set | setCeiling | ask => rfl
    | roll | rollWith => cases hstill
  · have hexpr := ((perform_refused_iff w op).mp hrefused).2
    cases op with
    | set | setCeiling | ask => rfl
    | roll => exact drawn_of_none w.session.source hexpr
    | rollWith i => exact drawn_of_none (w.sources i) hexpr

theorem sources_of_unrolled {w : World σ τ} {op : Operation ι}
    (h : op.isRoll = false ∨ (w.perform op).1 = .rolled (.error .notParsed)) :
    (w.perform op).2.session.source = w.session.source ∧ (w.perform op).2.sources = w.sources := by
  rcases h with hstill | hrefused
  · cases op with
    | set text => exact ⟨source_set text w.session, rfl⟩
    | setCeiling | ask => exact ⟨rfl, rfl⟩
    | roll | rollWith => cases hstill
  · rw [perform_of_refused hrefused]
    exact ⟨rfl, rfl⟩

theorem toList_rolls_of_perform {w : World σ τ} {op : Operation ι} {evaluation : Evaluation}
    (h : (w.perform op).1 = .rolled (.ok evaluation)) :
    evaluation.rolls.toList = w.drawn op := by
  cases op with
  | set | setCeiling => cases h
  | ask query => cases query <;> cases h
  | roll => exact toList_rolls_eq_drawn (Answer.rolled.inj h)
  | rollWith i => exact toList_rolls_eq_drawn (Answer.rolled.inj h)

/-- Over a run each source gives the dice of the rolls with it, one after the other, and nothing
else: this is what recorders keep, which change neither the answers nor the last state. However a
roll ends, its dice are what it takes from its source. What is no roll leaves all sources as they
are, and so does a roll that is refused. A roll with a source like the session's own answers as a
roll of the session would, leaves the session where that would leave it but for the session's own
source, and moves on as that would. -/
theorem run_draws (w : World σ τ) (ops : List (Operation ι)) :
    (w.recorded fun _ => []).run ops =
        ((w.run ops).1, (w.run ops).2.recorded fun place => w.drawnFrom place ops) ∧
      (∀ (ρ : Type) [Source ρ] (source : ρ), w.session.Draws source) ∧
      (∀ op, op.isRoll = false ∨ (w.perform op).1 = .rolled (.error .notParsed) →
        w.drawn op = [] ∧ (w.perform op).2.session.source = w.session.source ∧
          (w.perform op).2.sources = w.sources) ∧
      (∀ op evaluation, (w.perform op).1 = .rolled (.ok evaluation) →
        evaluation.rolls.toList = w.drawn op) ∧
      w.session.rollWith w.session.source =
        (w.session.roll.1, { w.session.roll.2 with source := w.session.source },
          w.session.roll.2.source) ∧
      ∀ (ρ : Type) [Source ρ] (R : σ → ρ → Prop), Source.Mirrors R →
        ∀ source, R w.session.source source →
          (w.session.rollWith source).1 = w.session.roll.1 ∧
            (w.session.rollWith source).2.1 =
              { w.session.roll.2 with source := w.session.source } ∧
            R w.session.roll.2.source (w.session.rollWith source).2.2 := by
  refine ⟨?_, ?_, ?_, ?_, rollWith_own w.session, ?_⟩
  · have hrun := run_recorded w ops fun _ => []
    simpa only [List.nil_append] using hrun
  · intro ρ _ source
    exact draws w.session source
  · intro op hunrolled
    exact ⟨drawn_of_unrolled hunrolled, sources_of_unrolled hunrolled⟩
  · intro op evaluation
    exact toList_rolls_of_perform
  · intro ρ _ R hmirrors source hsource
    exact rollWith_mirrored hmirrors hsource

end World

end Session

end DiceNotation
