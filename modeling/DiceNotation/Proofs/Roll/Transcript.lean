import DiceNotation.Proofs.Roll.Actions

/-!
What a roll asks of its source and how it is answered. Nothing else of the source matters: with any
source that gives the same answers the roll ends in the same way, behind the same answers.

A recorder keeps the values that another source gives. What a roll draws is what a recorder in place
of the source keeps, whatever the roll itself says about its dice.
-/
namespace DiceNotation

/-- A request for a die, with the value that was given for it. -/
structure Request where
  sides : Value
  answer : Option Value

namespace Request

def values (requests : List Request) : List Value := requests.filterMap answer

theorem values_append (requests requests' : List Request) :
    values (requests ++ requests') = values requests ++ values requests' :=
  List.filterMap_append

end Request

open Request

variable {σ τ α β : Type} [Source σ] [Source τ]

/-- Whether a source answers requests in this way, one after the other, and what is left of it. -/
inductive Answers : σ → List Request → σ → Prop
  | nil (s : σ) : Answers s [] s
  | cons {s s' s'' : σ} {sides : Value} {answer : Option Value} {requests : List Request}
      (first : Source.draw 1 sides s = (answer, s')) (rest : Answers s' requests s'') :
      Answers s (⟨sides, answer⟩ :: requests) s''

namespace Answers

theorem append {s s' s'' : σ} {requests requests' : List Request} (h : Answers s requests s')
    (h' : Answers s' requests' s'') : Answers s (requests ++ requests') s'' := by
  induction h with
  | nil s => exact h'
  | cons first rest ih => exact .cons first (ih h')

theorem exists_of_append {s s'' : σ} {requests requests' : List Request}
    (h : Answers s (requests ++ requests') s'') :
    ∃ s', Answers s requests s' ∧ Answers s' requests' s'' := by
  induction requests generalizing s with
  | nil => exact ⟨s, .nil s, h⟩
  | cons request requests ih =>
    rcases h with _ | ⟨first, rest⟩
    obtain ⟨s', hrequests, hrest⟩ := ih rest
    exact ⟨s', .cons first hrequests, hrest⟩

/-- A list of values answers with them in order, whatever the sides are. -/
theorem listed {requests : List Request} (h : ∀ request ∈ requests, request.answer ≠ none)
    (rest : List Value) :
    Answers (Supply.listed (values requests ++ rest)) requests (.listed rest) := by
  induction requests with
  | nil => exact .nil _
  | cons request requests ih =>
    rcases request with ⟨sides, _ | value⟩
    · exact absurd rfl (h _ List.mem_cons_self)
    · have hrest := ih fun request hrequest => h request (List.mem_cons_of_mem _ hrequest)
      exact .cons rfl hrest

/-- What is left of a list of values is what stands behind the values that were given. -/
theorem exists_listed {given : List Value} {requests : List Request} {supply : Supply}
    (h : Answers (.listed given) requests supply) :
    ∃ rest, supply = .listed rest ∧ given = values requests ++ rest := by
  induction requests generalizing given with
  | nil =>
    cases h
    exact ⟨given, rfl, rfl⟩
  | cons request requests ih =>
    rcases h with _ | ⟨first, rest⟩
    cases given with
    | nil =>
      cases first
      exact ih rest
    | cons value given =>
      cases first
      obtain ⟨left, hleft, rfl⟩ := ih rest
      exact ⟨left, hleft, rfl⟩

/-- The values that were given are used up where one is missing. -/
theorem listed_unanswered {answered : List Request}
    (h : ∀ request ∈ answered, request.answer ≠ none) (sides : Value) :
    Answers (Supply.listed (values (answered ++ [⟨sides, none⟩]))) (answered ++ [⟨sides, none⟩])
      (.listed []) := by
  rw [values_append]
  exact (Answers.listed h []).append (.cons rfl (.nil _))

theorem listed_nil_of_unanswered {given : List Value} {requests : List Request} {sides : Value}
    {supply : Supply} (h : Answers (.listed given) (requests ++ [⟨sides, none⟩]) supply) :
    supply = .listed [] := by
  obtain ⟨supply', hrequests, hlast⟩ := h.exists_of_append
  obtain ⟨rest, rfl, -⟩ := hrequests.exists_listed
  rcases hlast with _ | ⟨first, hnil⟩
  cases hnil
  cases rest with
  | nil =>
    cases first
    rfl
  | cons value rest => cases first

end Answers

namespace Rolling

/-- The requests of the action `m` in a run and the events that it notes. The action `m'` does the
same with any source that gives the same answers, whatever is noted before. -/
structure Transcript (m : Rolling σ α) (m' : Rolling τ α) (run : Run σ) (requests : List Request)
    (events : Array Event) : Prop where
  source : Answers run.source requests (m.after run).source
  rolls : (m.after run).rolls.toList = run.rolls.toList ++ values requests
  journal : (m.after run).journal = run.journal ++ events
  answered : m.outcome run ≠ .error .exhausted → ∀ request ∈ requests, request.answer ≠ none
  unanswered : m.outcome run = .error .exhausted →
    ∃ answered sides, requests = answered ++ [⟨sides, none⟩] ∧
      ∀ request ∈ answered, request.answer ≠ none
  again {t t' : τ} (h : Answers t requests t') (journal : Array Event) :
    m'.outcome ⟨t, run.rolls, journal⟩ = m.outcome run ∧
      m'.after ⟨t, run.rolls, journal⟩ = ⟨t', (m.after run).rolls, journal ++ events⟩

namespace Transcript

variable {m : Rolling σ α} {m' : Rolling τ α} {f : α → Rolling σ β} {f' : α → Rolling τ β}
  {run : Run σ} {requests requests' : List Request} {events events' : Array Event}

theorem bind_error {halt : Halt} (first : Transcript m m' run requests events)
    (hm : m.outcome run = .error halt) :
    Transcript (m >>= f) (m' >>= f') run requests events := by
  have hafter := after_bind_of_error (f := f) hm
  refine ⟨?_, ?_, ?_, ?_, ?_, ?_⟩
  · rw [hafter]
    exact first.source
  · rw [hafter]
    exact first.rolls
  · rw [hafter]
    exact first.journal
  · intro hhalt
    apply first.answered
    rw [hm]
    rintro ⟨⟩
    exact hhalt (outcome_bind_of_error hm)
  · intro hhalt
    apply first.unanswered
    rw [outcome_bind_of_error hm] at hhalt
    cases hhalt
    exact hm
  · intro t t' ht journal
    obtain ⟨hagain, hagain'⟩ := first.again ht journal
    rw [hm] at hagain
    rw [outcome_bind_of_error hm, hafter, outcome_bind_of_error hagain,
      after_bind_of_error hagain]
    exact ⟨rfl, hagain'⟩

/-- The requests and events of both parts stand one after the other. -/
theorem bind_ok {value : α} (first : Transcript m m' run requests events)
    (hm : m.outcome run = .ok value)
    (next : Transcript (f value) (f' value) (m.after run) requests' events') :
    Transcript (m >>= f) (m' >>= f') run (requests ++ requests') (events ++ events') := by
  have hafter := after_bind_of_ok (f := f) hm
  refine ⟨?_, ?_, ?_, ?_, ?_, ?_⟩
  · rw [hafter]
    exact first.source.append next.source
  · rw [hafter, next.rolls, first.rolls, values_append, List.append_assoc]
  · rw [hafter, next.journal, first.journal, Array.append_assoc]
  · intro hhalt request hrequest
    rw [outcome_bind_of_ok hm] at hhalt
    rcases List.mem_append.mp hrequest with hfirst | hnext
    · exact first.answered (by rw [hm]; nofun) request hfirst
    · exact next.answered hhalt request hnext
  · intro hhalt
    rw [outcome_bind_of_ok hm] at hhalt
    obtain ⟨answered, sides, rfl, hnext⟩ := next.unanswered hhalt
    have hfirst := first.answered (by rw [hm]; nofun)
    refine ⟨requests ++ answered, sides, (List.append_assoc _ _ _).symm, ?_⟩
    exact List.forall_mem_append.mpr ⟨hfirst, hnext⟩
  · -- The other source answers the first requests, and what is left of it the others.
    intro t t' ht journal
    obtain ⟨t₁, hfirst, hnext⟩ := ht.exists_of_append
    obtain ⟨hagain, hagain'⟩ := first.again hfirst journal
    rw [hm] at hagain
    rw [outcome_bind_of_ok hm, hafter, outcome_bind_of_ok hagain, after_bind_of_ok hagain,
      hagain', ← Array.append_assoc]
    exact next.again hnext (journal ++ events)

end Transcript

/-- The action `m'` does what `m` does whenever it gets the same answers. -/
def Replays (m : Rolling σ α) (m' : Rolling τ α) : Prop :=
  ∀ run, ∃ requests events, Transcript m m' run requests events

namespace Replays

/-- An action that leaves the run as it is makes no requests. -/
theorem of_still {m : Rolling σ α} {m' : Rolling τ α} {outcome : Except Halt α}
    (houtcome : outcome ≠ .error .exhausted)
    (hm : ∀ run, m.outcome run = outcome ∧ m.after run = run)
    (hm' : ∀ run, m'.outcome run = outcome ∧ m'.after run = run) : Replays m m' := by
  intro run
  obtain ⟨hsame, hafter⟩ := hm run
  refine ⟨[], #[], ?_, ?_, ?_, nofun, ?_, ?_⟩
  · rw [hafter]
    exact .nil run.source
  · rw [hafter]
    exact (List.append_nil _).symm
  · rw [hafter, Array.append_empty]
  · rw [hsame]
    exact fun hexhausted => absurd hexhausted houtcome
  · intro t t' ht journal
    cases ht
    rw [hsame, hafter, Array.append_empty]
    exact hm' _

theorem pure (value : α) : Replays (pure value : Rolling σ α) (Pure.pure value : Rolling τ α) := by
  have hne : (.ok value : Except Halt α) ≠ .error .exhausted := nofun
  exact of_still hne (fun run => ⟨outcome_pure value run, after_pure value run⟩)
    fun run => ⟨outcome_pure value run, after_pure value run⟩

theorem fault (error : EvalError) :
    Replays (throw (.fault error) : Rolling σ α) (throw (.fault error) : Rolling τ α) := by
  have hne : (.error (.fault error) : Except Halt α) ≠ .error .exhausted := nofun
  exact of_still hne (fun run => ⟨outcome_throw _ run, after_throw _ run⟩)
    fun run => ⟨outcome_throw _ run, after_throw _ run⟩

theorem bind {m : Rolling σ α} {m' : Rolling τ α} {f : α → Rolling σ β} {f' : α → Rolling τ β}
    (first : Replays m m') (next : ∀ value, Replays (f value) (f' value)) :
    Replays (m >>= f) (m' >>= f') := by
  intro run
  obtain ⟨requests, events, htranscript⟩ := first run
  cases hm : m.outcome run with
  | error halt => exact ⟨requests, events, htranscript.bind_error hm⟩
  | ok value =>
    obtain ⟨requests', events', hnext⟩ := next value (m.after run)
    exact ⟨requests ++ requests', events ++ events', htranscript.bind_ok hm hnext⟩

theorem die (sides : Value) :
    Replays (die sides : Rolling σ Value) (Rolling.die sides : Rolling τ Value) := by
  intro run
  rcases hdraw : Source.draw 1 sides run.source with ⟨answer, source⟩
  have houtcome := outcome_die sides run
  have hafter := after_die sides run
  rw [hdraw] at houtcome hafter
  refine ⟨[⟨sides, answer⟩], #[], ?_, ?_, ?_, ?_, ?_, ?_⟩
  · rw [hafter]
    exact .cons hdraw (.nil source)
  · rw [hafter]
    cases answer with
    | none => exact (List.append_nil _).symm
    | some value => exact Array.toList_push
  · rw [hafter, Array.append_empty]
  · intro hhalt request hrequest
    rw [List.mem_singleton.mp hrequest]
    rintro rfl
    exact hhalt houtcome
  · intro hhalt
    rw [houtcome] at hhalt
    cases answer with
    | none => exact ⟨[], sides, rfl, nofun⟩
    | some value => cases hhalt
  · intro t t' ht journal
    rcases ht with _ | ⟨hfirst, hnil⟩
    cases hnil
    rw [outcome_die, after_die, houtcome, hafter, hfirst, Array.append_empty]
    exact ⟨rfl, rfl⟩

theorem inRange (value? : Option Value) :
    Replays (inRange value? : Rolling σ Value) (Rolling.inRange value? : Rolling τ Value) := by
  cases value? with
  | none => exact fault .overflow
  | some value => exact pure value

theorem dice (sides : Value) (count : Nat) (sum : Value) :
    Replays (dice sides count sum : Rolling σ Value)
      (Rolling.dice sides count sum : Rolling τ Value) := by
  induction count generalizing sum with
  | zero => exact pure sum
  | succ count ih =>
    apply bind (die sides)
    intro value
    exact bind (inRange (sum.add? value)) ih

theorem note (count sides : Value) (before : Nat) (sum : Value) :
    Replays (note count sides before sum : Rolling σ Value)
      (Rolling.note count sides before sum : Rolling τ Value) := by
  intro run
  refine ⟨[], #[.termRolled count.toInt.toNat sides
    (run.rolls.extract before run.rolls.size).toList sum], .nil _, (List.append_nil _).symm,
    Array.append_singleton.symm, nofun, nofun, ?_⟩
  intro t t' ht journal
  cases ht
  rw [Array.append_singleton]
  exact ⟨rfl, rfl⟩

/-- An action does in a run what another does that cannot be told from it there. -/
theorem transcript_congr {m₁ m₂ : Rolling σ α} {m₁' m₂' : Rolling τ α} {run : Run σ}
    (hreplays : Replays m₂ m₂') (h : m₁ run = m₂ run)
    (h' : ∀ (t : τ) (journal), m₁' ⟨t, run.rolls, journal⟩ = m₂' ⟨t, run.rolls, journal⟩) :
    ∃ requests events, Transcript m₁ m₁' run requests events := by
  obtain ⟨requests, events, htranscript⟩ := hreplays run
  have houtcome := outcome_congr h
  have hafter := after_congr h
  refine ⟨requests, events, ?_, ?_, ?_, ?_, ?_, ?_⟩
  · rw [hafter]
    exact htranscript.source
  · rw [hafter]
    exact htranscript.rolls
  · rw [hafter]
    exact htranscript.journal
  · rw [houtcome]
    exact htranscript.answered
  · rw [houtcome]
    exact htranscript.unanswered
  · intro t t' ht journal
    rw [outcome_congr (h' t journal), after_congr (h' t journal), houtcome, hafter]
    exact htranscript.again ht journal

theorem term (ceiling : Option UInt32) (count sides : Value) :
    Replays (term ceiling count sides : Rolling σ Value)
      (Rolling.term ceiling count sides : Rolling τ Value) := by
  intro run
  cases hrefusal : refusal? ceiling run.rolls.size count sides with
  | some error =>
    apply transcript_congr (fault error) (term_refused hrefusal)
    intro t journal
    exact term_refused hrefusal
  | none =>
    apply transcript_congr (bind (dice sides _ 0) (note count sides run.rolls.size))
      (term_accepted hrefusal)
    intro t journal
    exact term_accepted hrefusal

theorem compatible (ceiling : Option UInt32) :
    Compatible ceiling ceiling fun (m : Rolling σ Value) (m' : Rolling τ Value) =>
      Replays m m' where
  pure := pure
  fault := fault
  bind := bind
  term := term ceiling

/-- Dice are only added. -/
theorem rolls_isPrefix {m : Rolling σ α} {m' : Rolling τ α} (h : Replays m m') (run : Run σ) :
    run.rolls.toList <+: (m.after run).rolls.toList := by
  obtain ⟨requests, events, htranscript⟩ := h run
  exact ⟨_, htranscript.rolls.symm⟩

end Replays

/-- A roll does the same with all sources that give the same answers. -/
theorem replays_roll (ceiling : Option UInt32) (e : Expr) :
    Replays (e.roll ceiling : Rolling σ Value) (e.roll ceiling : Rolling τ Value) :=
  (Replays.compatible ceiling).roll e

end Rolling

end DiceNotation
