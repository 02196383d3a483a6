import DiceNotation.Proofs.Roll.Transcript

/-!
An evaluation can be replayed from the values that it drew. Listed again, they give the same outcome
and are used up by it, and a part of them is not enough. Evaluations one after the other share the
source and nothing else.

What an evaluation draws is told by a recorder in the place of its source.
-/
namespace DiceNotation

variable {σ τ : Type} [Source σ] [Source τ]

/-- A source together with the values that it has given, in order. -/
structure Recorder (σ : Type) where
  source : σ
  given : List Value

instance : Source (Recorder σ) where
  draw low high recorder :=
    let drawing := Source.draw low high recorder.source
    (drawing.1, ⟨drawing.2, recorder.given ++ drawing.1.toList⟩)

open Request

theorem Answers.recorded {s s' : σ} {requests : List Request} (h : Answers s requests s')
    (given : List Value) :
    Answers (Recorder.mk s given) requests ⟨s', given ++ values requests⟩ := by
  induction h generalizing given with
  | nil s =>
    rw [show given ++ values [] = given from List.append_nil given]
    exact .nil _
  | @cons s s' s'' sides answer requests first rest ih =>
    have hvalues : values (⟨sides, answer⟩ :: requests) = answer.toList ++ values requests := by
      cases answer <;> rfl
    have hdraw : Source.draw 1 sides (Recorder.mk s given) =
        (answer, ⟨s', given ++ answer.toList⟩) := by
      simp only [Source.draw, first]
    rw [hvalues, ← List.append_assoc]
    exact .cons hdraw (ih _)

namespace Roller

variable {e : Expr} {roller : Roller σ}

/-- The roller with a recorder for its source. -/
def recording (roller : Roller σ) : Roller (Recorder σ) :=
  ⟨⟨roller.source, []⟩, roller.ceiling, roller.journal⟩

/-- The roller with a list of values for its source. -/
def listing (roller : Roller σ) (values : List Value) : Roller Supply :=
  ⟨.listed values, roller.ceiling, roller.journal⟩

/-- The values that the source gives while an expression is evaluated. -/
def drawn (e : Expr) (roller : Roller σ) : List Value :=
  (roller.recording.evaluate e).2.source.given

/-- The requests of an evaluation and the events that it notes. Rollers over sources of type `τ` do
the same behind the same answers. -/
structure Transcript (τ : Type) [Source τ] (e : Expr) (roller : Roller σ) (requests : List Request)
    (events : Array Event) : Prop where
  source : Answers roller.source requests (roller.evaluate e).2.source
  dice : ((e.roll roller.ceiling).after roller.start).rolls.toList = values requests
  journal : (roller.evaluate e).2.journal = roller.journal ++ events
  answered : (roller.evaluate e).1 ≠ .error .exhausted → ∀ request ∈ requests, request.answer ≠ none
  unanswered : (roller.evaluate e).1 = .error .exhausted →
    ∃ answered sides, requests = answered ++ [⟨sides, none⟩] ∧
      ∀ request ∈ answered, request.answer ≠ none
  again {t t' : τ} (h : Answers t requests t') (journal : Array Event) :
    (Roller.mk t roller.ceiling journal).evaluate e =
      ((roller.evaluate e).1, ⟨t', roller.ceiling, journal ++ events⟩)

/-- Every evaluation has a transcript. The event of a success stands behind those of the roll. -/
theorem exists_transcript (τ : Type) [Source τ] (e : Expr) (roller : Roller σ) :
    ∃ requests events, Transcript τ e roller requests events := by
  have hreplays : Rolling.Replays (e.roll roller.ceiling : Rolling σ Value)
      (e.roll roller.ceiling : Rolling τ Value) := Rolling.replays_roll roller.ceiling e
  obtain ⟨requests, events, htranscript⟩ := hreplays roller.start
  refine ⟨requests, events ++ closing e (roller.evaluate e).1, ?_, ?_, ?_, ?_, ?_, ?_⟩
  · rw [evaluate_eq]
    exact htranscript.source
  · exact htranscript.rolls
  · simp only [evaluate_eq, htranscript.journal, Array.append_assoc]
    rfl
  · intro hhalt
    apply htranscript.answered
    rwa [evaluate_eq, ne_eq, evaluationOf_eq_error_iff] at hhalt
  · intro hhalt
    apply htranscript.unanswered
    rwa [evaluate_eq, evaluationOf_eq_error_iff] at hhalt
  · intro t t' ht journal
    have houtcome : (e.roll roller.ceiling).outcome (Roller.mk t roller.ceiling journal).start =
        (e.roll roller.ceiling).outcome roller.start := (htranscript.again ht journal).1
    have hafter : (e.roll roller.ceiling).after (Roller.mk t roller.ceiling journal).start =
        ⟨t', ((e.roll roller.ceiling).after roller.start).rolls, journal ++ events⟩ :=
      (htranscript.again ht journal).2
    simp only [evaluate_eq, houtcome, hafter, Array.append_assoc]

theorem ceiling_evaluate (e : Expr) (roller : Roller σ) :
    (roller.evaluate e).2.ceiling = roller.ceiling := by
  rw [evaluate_eq]

section Drawn

variable {e : Expr} {roller : Roller σ} {requests : List Request} {events : Array Event}

theorem Transcript.drawn_eq (h : Transcript (Recorder σ) e roller requests events) :
    roller.drawn e = values requests := by
  have hrecorded := h.source.recorded []
  unfold drawn recording
  rw [h.again hrecorded roller.journal, List.nil_append]

/-- The dice of a roll are what a recorder keeps of it. -/
theorem drawn_eq (e : Expr) (roller : Roller σ) :
    roller.drawn e = ((e.roll roller.ceiling).after roller.start).rolls.toList := by
  obtain ⟨requests, events, h⟩ := exists_transcript (Recorder σ) e roller
  rw [h.drawn_eq, h.dice]

/-- A recorder changes nothing but that it records. -/
theorem evaluate_recording (e : Expr) (roller : Roller σ) :
    roller.recording.evaluate e =
      ((roller.evaluate e).1,
        ⟨⟨(roller.evaluate e).2.source, roller.drawn e⟩, roller.ceiling,
          (roller.evaluate e).2.journal⟩) := by
  obtain ⟨requests, events, h⟩ := exists_transcript (Recorder σ) e roller
  have hrecorded := h.source.recorded []
  rw [h.drawn_eq, h.journal, recording, h.again hrecorded roller.journal, List.nil_append]

theorem toList_rolls_eq_drawn {evaluation : Evaluation}
    (h : (roller.evaluate e).1 = .ok evaluation) : evaluation.rolls.toList = roller.drawn e := by
  rw [evaluate_eq, evaluationOf_eq_ok_iff] at h
  rw [h.2, drawn_eq]

/-- The values drawn, listed again, give the same outcome and are used up. -/
theorem evaluate_listing (hhalt : (roller.evaluate e).1 ≠ .error .exhausted) (rest : List Value) :
    (roller.listing (roller.drawn e ++ rest)).evaluate e =
      ((roller.evaluate e).1, (roller.evaluate e).2.listing rest) := by
  obtain ⟨requests, events, h⟩ := exists_transcript Supply e roller
  have hlisted := Answers.listed (h.answered hhalt) rest
  unfold listing
  rw [drawn_eq, h.dice, h.again hlisted roller.journal, h.journal, ceiling_evaluate]

/-- Also the values drawn by an evaluation that runs out lead it the same way again. -/
theorem evaluate_listing_drawn (e : Expr) (roller : Roller σ) :
    (roller.listing (roller.drawn e)).evaluate e =
      ((roller.evaluate e).1, (roller.evaluate e).2.listing []) := by
  by_cases hhalt : (roller.evaluate e).1 = .error .exhausted
  · obtain ⟨requests, events, h⟩ := exists_transcript Supply e roller
    obtain ⟨answered, sides, rfl, hanswered⟩ := h.unanswered hhalt
    have hlisted := Answers.listed_unanswered hanswered sides
    unfold listing
    rw [drawn_eq, h.dice, h.again hlisted roller.journal, h.journal, ceiling_evaluate]
  · have hlisting := evaluate_listing hhalt []
    rwa [List.append_nil] at hlisting

/-- Too few of the values drawn are used up as well, and then a die is missing. If the part had an
outcome, its draws and all that is left would give the same outcome and leave something. -/
theorem evaluate_listing_part {part more : List Value} (hdrawn : roller.drawn e = part ++ more)
    (hshort : more ≠ [] ∨ (roller.evaluate e).1 = .error .exhausted) :
    ((roller.listing part).evaluate e).1 = .error .exhausted ∧
      ((roller.listing part).evaluate e).2.source = .listed [] := by
  obtain ⟨requests, events, h⟩ := exists_transcript Supply e (roller.listing part)
  have hexhausted : ((roller.listing part).evaluate e).1 = .error .exhausted := by
    apply Classical.byContradiction
    intro hother
    obtain ⟨left, -, hleft⟩ := h.source.exists_listed
    have hagain := h.again (Answers.listed (h.answered hother) (left ++ more)) roller.journal
    have hwhole := evaluate_listing_drawn e roller
    rw [hdrawn, hleft, List.append_assoc] at hwhole
    replace hwhole := hagain.symm.trans hwhole
    rcases hshort with hmore | hhalt
    · have hnothing : left ++ more = [] :=
        Supply.listed.inj (congrArg (fun result => result.2.source) hwhole)
      exact hmore (List.append_eq_nil_iff.mp hnothing).2
    · exact hother ((congrArg Prod.fst hwhole).trans hhalt)
  refine ⟨hexhausted, ?_⟩
  obtain ⟨answered, sides, rfl, -⟩ := h.unanswered hexhausted
  exact h.source.listed_nil_of_unanswered

theorem evaluate_listing_of_prefix {part : List Value} (hpart : part <+: roller.drawn e)
    (hne : part ≠ roller.drawn e) :
    ((roller.listing part).evaluate e).1 = .error .exhausted ∧
      ((roller.listing part).evaluate e).2.source = .listed [] := by
  obtain ⟨more, hmore⟩ := hpart
  refine evaluate_listing_part hmore.symm (.inl ?_)
  rintro rfl
  rw [List.append_nil] at hmore
  exact hne hmore

end Drawn

section Sequence

/-- The outcomes of expressions that are evaluated one after the other. -/
def evaluateAll (roller : Roller σ) : List Expr → List (Except Halt Evaluation) × Roller σ
  | [] => ([], roller)
  | e :: es =>
    let first := roller.evaluate e
    let others := first.2.evaluateAll es
    (first.1 :: others.1, others.2)

/-- What is noted before does not change an outcome. -/
theorem evaluate_journal (e : Expr) (roller : Roller σ) (journal : Array Event) :
    ((Roller.mk roller.source roller.ceiling journal).evaluate e).1 = (roller.evaluate e).1 := by
  obtain ⟨requests, events, h⟩ := exists_transcript σ e roller
  rw [h.again h.source journal]

/-- Each outcome is that of a new roller on what the evaluations before left of the source. -/
theorem getElem?_evaluateAll (es : List Expr) (roller : Roller σ) (k : Nat) :
    (roller.evaluateAll es).1[k]? = es[k]?.map fun e =>
      ((Roller.mk (roller.evaluateAll (es.take k)).2.source roller.ceiling #[]).evaluate e).1 := by
  induction es generalizing roller k with
  | nil => rfl
  | cons e es ih =>
    cases k with
    | zero =>
      have hnew := evaluate_journal e roller #[]
      simp only [evaluateAll, List.getElem?_cons_zero, List.take_zero, Option.map_some, hnew]
    | succ k =>
      simp only [evaluateAll, List.getElem?_cons_succ, List.take_succ_cons, ih, ceiling_evaluate]

end Sequence

/-- An evaluation logs what it draws, and does again from what it drew what it did. From less it
runs out of dice. Evaluations one after the other each do what a new roller does on what is left of
the source. -/
theorem replay_drawn (e : Expr) (es : List Expr) (roller : Roller σ) :
    (roller.recording.evaluate e).1 = (roller.evaluate e).1 ∧
      (roller.recording.evaluate e).2.source =
        ⟨(roller.evaluate e).2.source, roller.drawn e⟩ ∧
      (∀ evaluation, (roller.evaluate e).1 = .ok evaluation →
        evaluation.rolls.toList = roller.drawn e) ∧
      ((roller.evaluate e).1 ≠ .error .exhausted →
        (∀ rest, (roller.listing (roller.drawn e ++ rest)).evaluate e =
          ((roller.evaluate e).1, (roller.evaluate e).2.listing rest)) ∧
        ∀ part, part <+: roller.drawn e → part ≠ roller.drawn e →
          ((roller.listing part).evaluate e).1 = .error .exhausted ∧
            ((roller.listing part).evaluate e).2.source = .listed []) ∧
      ∀ k, (roller.evaluateAll es).1[k]? = es[k]?.map fun e =>
        ((Roller.mk (roller.evaluateAll (es.take k)).2.source roller.ceiling #[]).evaluate
          e).1 := by
  have hrecording := evaluate_recording e roller
  refine ⟨?_, ?_, fun _ => toList_rolls_eq_drawn, ?_, getElem?_evaluateAll es roller⟩
  · rw [hrecording]
  · rw [hrecording]
  · intro hhalt
    exact ⟨evaluate_listing hhalt, fun part => evaluate_listing_of_prefix⟩

end Roller

end DiceNotation
