import DiceNotation.Proofs.Roll.Ledger
import DiceNotation.Proofs.Session.Draws
import DiceNotation.Proofs.Source.Fairness

/-!
A ledger in the place of its source changes nothing of a roll, and has the dice of it. From a source
whose values are in range each of these shows one of the sides of its term, whether the roll
succeeds or not. The generator is such a source, and it favours no side.
-/
namespace DiceNotation

namespace Roller

variable {σ : Type} [Source σ]

/-- The roller with a ledger for its source. -/
def booking (roller : Roller σ) : Roller (Ledger σ) :=
  ⟨⟨roller.source, []⟩, roller.ceiling, roller.journal⟩

/-- A ledger changes nothing of an evaluation, and has all its dice. -/
theorem evaluate_booking (e : Expr) (roller : Roller σ) :
    (roller.booking.evaluate e).1 = (roller.evaluate e).1 ∧
      (roller.booking.evaluate e).2.source.source = (roller.evaluate e).2.source ∧
      Entry.values (roller.booking.evaluate e).2.source.entries = roller.drawn e := by
  obtain ⟨requests, events, h⟩ := exists_transcript (Ledger σ) e roller
  rw [booking, h.again (h.source.booked []) roller.journal, drawn_eq, h.dice]
  exact ⟨rfl, rfl, Entry.values_map requests⟩

theorem books_evaluate (roller : Roller σ) (h : Source.InRange roller.source) (e : Expr) :
    e.Books (roller.booking.evaluate e).2.source.entries
      ((roller.evaluate e).1.toOption.map Evaluation.total) := by
  obtain ⟨entries, hbooked⟩ := Rolling.bookable_roll roller.ceiling e roller.booking.start h
  have hledger : (roller.booking.evaluate e).2.source.entries = entries := by
    rw [evaluate_eq]
    exact hbooked.ledger
  have htotal (outcome : Except Halt Value) (rolls : Array Value) :
      (evaluationOf outcome rolls).toOption.map Evaluation.total = outcome.toOption := by
    cases outcome <;> rfl
  rw [hledger, ← (evaluate_booking e roller).1, evaluate_eq, htotal]
  exact hbooked.reads

end Roller

namespace Session

variable {σ τ : Type} [Source τ]

/-- A ledger changes nothing of a roll, and has all its dice. -/
theorem rollWith_ledger (s : Session σ) (source : τ) :
    (s.rollWith (Ledger.mk source [])).1 = (s.rollWith source).1 ∧
      (s.rollWith (Ledger.mk source [])).2.1 = (s.rollWith source).2.1 ∧
      (s.rollWith (Ledger.mk source [])).2.2.source = (s.rollWith source).2.2 ∧
      Entry.values (s.rollWith (Ledger.mk source [])).2.2.entries = s.drawn source := by
  obtain ⟨requests, h⟩ := exists_transcript (Ledger τ) s source
  rw [h.again (h.answers.booked []), h.dice]
  exact ⟨rfl, rfl, rfl, Entry.values_map requests⟩

theorem rollWith_ne_exhausted {source : τ} (h : Source.InRange source) (s : Session σ) :
    (s.rollWith source).1 ≠ .error .exhausted := by
  cases hexpr : s.state.expr? with
  | none =>
    rw [rollWith_of_none source hexpr]
    nofun
  | some e =>
    rw [ne_eq, rollWith_eq_exhausted_iff source hexpr]
    exact Roller.evaluate_answered h e

theorem books_rollWith {source : τ} (h : Source.InRange source) {s : Session σ} {e : Expr}
    (hexpr : s.state.expr? = some e) :
    e.Books (s.rollWith (Ledger.mk source [])).2.2.entries
      ((s.rollWith source).1.toOption.map Evaluation.total) := by
  have hbooks := Roller.books_evaluate ⟨source, s.ceiling, s.journal⟩ h e
  have hoption (outcome : Except Halt Evaluation) :
      (outcome.mapError Failure.ofHalt).toOption = outcome.toOption := by
    cases outcome <;> rfl
  rw [rollWith_source _ hexpr, rollWith_eq source hexpr, hoption]
  exact hbooks

end Session

/-- What holds of all rolls with a source: a ledger in its place changes nothing, and has the dice
that are rolled. Each of these shows one of as many sides as its term has. -/
structure Source.RollsFairly {σ : Type} [Source σ] (source : σ) : Prop where
  evaluate : ∀ ceiling journal e,
    let roller : Roller σ := ⟨source, ceiling, journal⟩
    let entries := (roller.booking.evaluate e).2.source.entries
    ((roller.booking.evaluate e).1 = (roller.evaluate e).1 ∧
      (roller.booking.evaluate e).2.source.source = (roller.evaluate e).2.source ∧
      Entry.values entries = roller.drawn e) ∧
      (roller.evaluate e).1 ≠ .error .exhausted ∧
      e.Books entries ((roller.evaluate e).1.toOption.map Evaluation.total) ∧
      ∀ evaluation, (roller.evaluate e).1 = .ok evaluation →
        evaluation.rolls.toList = Entry.values entries
  rollWith : ∀ {τ : Type} (s : Session τ),
    let entries := (s.rollWith (Ledger.mk source [])).2.2.entries
    ((s.rollWith (Ledger.mk source [])).1 = (s.rollWith source).1 ∧
      (s.rollWith (Ledger.mk source [])).2.1 = (s.rollWith source).2.1 ∧
      (s.rollWith (Ledger.mk source [])).2.2.source = (s.rollWith source).2.2 ∧
      Entry.values entries = s.drawn source) ∧
      (s.rollWith source).1 ≠ .error .exhausted ∧
      (s.state.expr? = none → entries = []) ∧
      (∀ e, s.state.expr? = some e →
        e.Books entries ((s.rollWith source).1.toOption.map Evaluation.total)) ∧
      ∀ evaluation, (s.rollWith source).1 = .ok evaluation →
        evaluation.rolls.toList = Entry.values entries
  /-- A roll of a session with the source is a roll with that source. -/
  roll : ∀ s : Session σ, s.source = source →
    (s.rollWith source).1 = s.roll.1 ∧ (s.rollWith source).2.2 = s.roll.2.source

theorem Source.InRange.rollsFairly {σ : Type} [Source σ] {source : σ} (h : InRange source) :
    RollsFairly source where
  evaluate ceiling journal e := by
    have hsame := Roller.evaluate_booking e ⟨source, ceiling, journal⟩
    refine ⟨hsame, Roller.evaluate_answered h e, Roller.books_evaluate _ h e, ?_⟩
    intro evaluation hevaluation
    rw [hsame.2.2]
    exact Roller.toList_rolls_eq_drawn hevaluation
  rollWith s := by
    have hsame := s.rollWith_ledger source
    refine ⟨hsame, s.rollWith_ne_exhausted h, ?_, fun e => Session.books_rollWith h, ?_⟩
    · intro hexpr
      rw [Session.rollWith_of_none _ hexpr]
    · intro evaluation hevaluation
      rw [hsame.2.2.2]
      exact Session.toList_rolls_eq_drawn hevaluation
  roll s hs := by
    subst hs
    rw [Session.rollWith_own]
    exact ⟨rfl, rfl⟩

/-- The generator keeps to the ranges that it is asked for, in every state and however wide they
are. It takes the first word that is not passed over, and every value of a range stands for the same
number of words, the number of all words divided by that of the values. So each die that is rolled
with it shows one of the sides of its term. -/
theorem Generator.uniform_fair :
    (∀ (g : Generator) (low high : Value), low.toInt ≤ high.toInt →
      low.toInt ≤ (g.uniform low high).1.toInt ∧ (g.uniform low high).1.toInt ≤ high.toInt) ∧
      (∀ (g : Generator) (low high : Value),
        ∃ k, (∀ i < k, image? low high (g.skip i).next.1 = none) ∧
          image? low high (g.skip k).next.1 = some (g.uniform low high).1 ∧
          (g.uniform low high).2 = g.skip (k + 1)) ∧
      (∀ low high value : Value, low.toInt ≤ value.toInt → value.toInt ≤ high.toInt →
        {word | image? low high word = some value}.ncard =
          2 ^ 32 / (high.toInt - low.toInt + 1).toNat) ∧
      ∀ g : Generator, Source.RollsFairly g ∧ Source.RollsFairly (Supply.generated g) := by
  refine ⟨fun g low high h => uniform_mem h g, fun g low high => uniform_takes_first low high g,
    fun low high value => ncard_image?, fun g => ⟨(inRange g).rollsFairly, ?_⟩⟩
  exact (Supply.inRange_ofSeed g.counter).rollsFairly

end DiceNotation
