import DiceNotation.Proofs.Roll.Replay
import DiceNotation.Proofs.Roll.Terms

/-!
What a ceiling on the dice of a roll changes. A roll under a ceiling is the roll without one, unless
a dice term would pass the ceiling. Then it stops in front of that term, with whole terms behind it,
and the roll without a ceiling goes on from there. The largest ceiling is never passed.
-/
namespace DiceNotation

namespace Rolling

variable {σ : Type}

/-- The roll `m` under a limit stops in front of a term, and `m'` without one goes on from there. -/
structure Stops (limit : UInt32) (m m' : Rolling σ Value) (run : Run σ) : Prop where
  outcome : m.outcome run = .error (.fault (.tooManyDice limit))
  rolls : (m.after run).rolls.toList <+: (m'.after run).rolls.toList
  journal : (m.after run).journal.toList <+: (m'.after run).journal.toList
  beyond (value : Value) (h : m'.outcome run = .ok value) : limit.toNat < (m'.after run).rolls.size

/-- The roll `m` under a limit is the roll `m'` without one unless it stops. -/
structure Limits (limit : UInt32) (m m' : Rolling σ Value) : Prop where
  free : TermByTerm m'
  run (run : Run σ) :
    (m.outcome run = m'.outcome run ∧ m.after run = m'.after run) ∨ Stops limit m m' run

section Bind

variable {limit : UInt32} {m m' : Rolling σ Value} {f f' : Value → Rolling σ Value} {run : Run σ}

/-- A roll that stops in its first part stops there, while the other goes on to further terms. -/
theorem Stops.bind_first (hstops : Stops limit m m' run)
    (free : ∀ value, TermByTerm (f' value)) : Stops limit (m >>= f) (m' >>= f') run := by
  have hm := hstops.outcome
  cases hm' : m'.outcome run with
  | error halt =>
    constructor
    · rw [outcome_bind_of_error hm]
    · rw [after_bind_of_error hm, after_bind_of_error hm']
      exact hstops.rolls
    · rw [after_bind_of_error hm, after_bind_of_error hm']
      exact hstops.journal
    · rw [outcome_bind_of_error hm']
      rintro value ⟨⟩
  | ok value =>
    obtain ⟨terms, rest, hlater⟩ := free value (m'.after run)
    have hrolls :
        (m'.after run).rolls.toList <+: ((f' value).after (m'.after run)).rolls.toList :=
      ⟨_, hlater.rolls.symm⟩
    constructor
    · rw [outcome_bind_of_error hm]
    · rw [after_bind_of_error hm, after_bind_of_ok hm']
      exact hstops.rolls.trans hrolls
    · rw [after_bind_of_error hm, after_bind_of_ok hm']
      exact hstops.journal.trans ⟨_, hlater.journal.symm⟩
    · intro value' _
      have hbeyond := hstops.beyond value hm'
      have hle := hrolls.length_le
      rw [Array.length_toList, Array.length_toList] at hle
      rw [after_bind_of_ok hm']
      omega

theorem Stops.bind_next {value : Value} (hm : m.outcome run = .ok value)
    (hm' : m'.outcome run = .ok value) (hafter : m.after run = m'.after run)
    (hstops : Stops limit (f value) (f' value) (m'.after run)) :
    Stops limit (m >>= f) (m' >>= f') run := by
  constructor
  · rw [outcome_bind_of_ok hm, hafter, hstops.outcome]
  · rw [after_bind_of_ok hm, after_bind_of_ok hm', hafter]
    exact hstops.rolls
  · rw [after_bind_of_ok hm, after_bind_of_ok hm', hafter]
    exact hstops.journal
  · rw [after_bind_of_ok hm', outcome_bind_of_ok hm']
    exact hstops.beyond

theorem Limits.bind (first : Limits limit m m')
    (next : ∀ value, Limits limit (f value) (f' value)) : Limits limit (m >>= f) (m' >>= f') := by
  refine ⟨first.free.bind fun value => (next value).free, ?_⟩
  intro run
  rcases first.run run with ⟨houtcome, hafter⟩ | hstops
  · cases hm' : m'.outcome run with
    | error halt =>
      have hm := houtcome.trans hm'
      rw [outcome_bind_of_error hm, after_bind_of_error hm, outcome_bind_of_error hm',
        after_bind_of_error hm']
      exact .inl ⟨rfl, hafter⟩
    | ok value =>
      have hm := houtcome.trans hm'
      rcases (next value).run (m'.after run) with hsame | hstops
      · rw [outcome_bind_of_ok hm, after_bind_of_ok hm, outcome_bind_of_ok hm',
          after_bind_of_ok hm', hafter]
        exact .inl hsame
      · exact .inr (.bind_next hm hm' hafter hstops)
  · exact .inr (hstops.bind_first fun value => (next value).free)

end Bind

variable [Source σ] {limit : UInt32} {rolled : Nat} {count sides : Value} {run : Run σ}

theorem passedLimit?_some (limit : UInt32) (rolled count : Nat) :
    passedLimit? (some limit) rolled count =
      if limit.toNat < min (rolled + count) (UInt32.size - 1) then some limit else none := by
  simp only [passedLimit?, Option.filter_some, decide_eq_true_eq]

/-- A limit refuses what is refused anyway, and terms that would pass it. -/
theorem refusal?_some (limit : UInt32) (rolled : Nat) (count sides : Value) :
    refusal? (some limit) rolled count sides = refusal? none rolled count sides ∨
      refusal? (some limit) rolled count sides = some (.tooManyDice limit) ∧
        refusal? none rolled count sides = none ∧
        limit.toNat < min (rolled + count.toInt.toNat) (UInt32.size - 1) := by
  unfold refusal?
  rw [passedLimit?_some]
  by_cases hsides : sides.toInt < 1
  · simp only [if_pos hsides, true_or]
  · by_cases hcount : count.toInt < 0
    · simp only [if_neg hsides, if_pos hcount, true_or]
    · by_cases hlimit : limit.toNat < min (rolled + count.toInt.toNat) (UInt32.size - 1)
      · right
        simp only [if_neg hsides, if_neg hcount, if_pos hlimit]
        exact ⟨rfl, rfl, hlimit⟩
      · left
        simp only [if_neg hsides, if_neg hcount, if_neg hlimit]
        rfl

theorem le_of_refusal?_eq_none (hlimit : limit.toNat < UInt32.size - 1)
    (h : refusal? (some limit) rolled count sides = none) :
    rolled + count.toInt.toNat ≤ limit.toNat := by
  unfold refusal? at h
  rw [passedLimit?_some] at h
  split at h
  · cases h
  · split at h
    · cases h
    · split at h
      · cases h
      · omega

/-- Under a limit that can be passed, no more dice are rolled than it allows. -/
theorem size_after_roll_le (hlimit : limit.toNat < UInt32.size - 1) (e : Expr) (run : Run σ)
    (hrun : run.rolls.size ≤ limit.toNat) :
    ((e.roll (some limit)).after run).rolls.size ≤ limit.toNat := by
  have hcompatible : Compatible (some limit) (some limit)
      fun (m : Rolling σ Value) (_ : Rolling σ Value) =>
        ∀ run, run.rolls.size ≤ limit.toNat → (m.after run).rolls.size ≤ limit.toNat := by
    refine ⟨fun value run hrun => hrun, fun error run hrun => hrun, ?_, ?_⟩
    · intro m _ f _ first next run hrun
      cases hm : m.outcome run with
      | error halt =>
        rw [after_bind_of_error hm]
        exact first run hrun
      | ok value =>
        rw [after_bind_of_ok hm]
        exact next value _ (first run hrun)
    · intro count sides run hrun
      cases hrefusal : refusal? (some limit) run.rolls.size count sides with
      | some error =>
        rw [after_congr (term_refused hrefusal)]
        exact hrun
      | none =>
        rw [after_congr (term_accepted hrefusal)]
        have hle := le_of_refusal?_eq_none hlimit hrefusal
        have hsize := (size_after_dice count sides run.rolls.size run).1
        omega
  exact hcompatible.roll e run hrun

theorem limits_term (limit : UInt32) (count sides : Value) :
    Limits limit (term (some limit) count sides) (term none count sides : Rolling σ Value) := by
  refine ⟨termByTerm_term none count sides, ?_⟩
  intro run
  rcases refusal?_some limit run.rolls.size count sides with hsame | ⟨hlimit, hfree, hpassed⟩
  · left
    cases hrefusal : refusal? none run.rolls.size count sides with
    | some error =>
      have hequal := (term_refused (hsame.trans hrefusal)).trans (term_refused hrefusal).symm
      exact ⟨outcome_congr hequal, after_congr hequal⟩
    | none =>
      have hequal := (term_accepted (hsame.trans hrefusal)).trans (term_accepted hrefusal).symm
      exact ⟨outcome_congr hequal, after_congr hequal⟩
  · right
    obtain ⟨terms, rest, hcompletes⟩ := termByTerm_term none count sides run
    have hstill := after_congr (term_refused hlimit)
    constructor
    · exact outcome_congr (term_refused hlimit)
    · rw [hstill]
      exact ⟨_, hcompletes.rolls.symm⟩
    · rw [hstill]
      exact ⟨_, hcompletes.journal.symm⟩
    · intro value hvalue
      rw [outcome_congr (term_accepted hfree)] at hvalue
      rw [after_congr (term_accepted hfree), (size_after_dice count sides _ run).2 value hvalue]
      omega

theorem limits_roll (limit : UInt32) (e : Expr) :
    Limits limit (e.roll (some limit)) (e.roll none : Rolling σ Value) := by
  have hcompatible : Compatible (some limit) none
      fun (m : Rolling σ Value) (m' : Rolling σ Value) => Limits limit m m' := {
    pure := fun value => ⟨termByTerm_roll none (.num value), fun run => .inl ⟨rfl, rfl⟩⟩
    fault := fun error => ⟨fun run => ⟨[], [], .of_still rfl⟩, fun run => .inl ⟨rfl, rfl⟩⟩
    bind := fun first next => first.bind next
    term := limits_term limit }
  exact hcompatible.roll e

/-- Numbers of dice are counted up to the largest limit, so that one is never passed. -/
theorem roll_largest_limit (hlimit : limit.toNat = UInt32.size - 1) (e : Expr) :
    (e.roll (some limit) : Rolling σ Value) = e.roll none := by
  have hcompatible : Compatible (some limit) none
      fun (m : Rolling σ Value) (m' : Rolling σ Value) => m = m' := by
    refine ⟨fun value => rfl, fun error => rfl, ?_, ?_⟩
    · intro m m' f f' first next
      rw [first, funext next]
    · intro count sides
      funext run
      rcases refusal?_some limit run.rolls.size count sides with hsame | ⟨-, -, hpassed⟩
      · cases hrefusal : refusal? none run.rolls.size count sides with
        | some error => rw [term_refused (hsame.trans hrefusal), term_refused hrefusal]
        | none => rw [term_accepted (hsame.trans hrefusal), term_accepted hrefusal]
      · omega
  exact hcompatible.roll e

end Rolling

namespace Roller

variable {σ : Type} [Source σ] {e : Expr} {roller : Roller σ} {limit : UInt32}

/-- The roller under another ceiling, or under none. -/
def under (roller : Roller σ) (ceiling : Option UInt32) : Roller σ := { roller with ceiling }

theorem drawn_under (e : Expr) (roller : Roller σ) (ceiling : Option UInt32) :
    (roller.under ceiling).drawn e = ((e.roll ceiling).after roller.start).rolls.toList :=
  drawn_eq e (roller.under ceiling)

theorem evaluate_under (e : Expr) (roller : Roller σ) (ceiling : Option UInt32) :
    (roller.under ceiling).evaluate e =
      let run := (e.roll ceiling).after roller.start
      let outcome := evaluationOf ((e.roll ceiling).outcome roller.start) run.rolls
      (outcome, ⟨run.source, ceiling, run.journal ++ closing e outcome⟩) :=
  evaluate_eq e (roller.under ceiling)

/-- Rolls that end in the same way make the same evaluations, whatever their ceilings are. -/
theorem evaluate_under_congr {ceiling ceiling' : Option UInt32}
    (houtcome : (e.roll ceiling).outcome roller.start = (e.roll ceiling').outcome roller.start)
    (hafter : (e.roll ceiling).after roller.start = (e.roll ceiling').after roller.start) :
    (roller.under ceiling).evaluate e =
        (((roller.under ceiling').evaluate e).1,
          ((roller.under ceiling').evaluate e).2.under ceiling) ∧
      (roller.under ceiling).drawn e = (roller.under ceiling').drawn e := by
  constructor
  · rw [evaluate_under, evaluate_under, houtcome, hafter]
    rfl
  · rw [drawn_under, drawn_under, hafter]

theorem length_drawn_le (hlimit : limit.toNat < UInt32.size - 1) (e : Expr) (roller : Roller σ) :
    ((roller.under (some limit)).drawn e).length ≤ limit.toNat := by
  rw [drawn_under, Array.length_toList]
  exact Rolling.size_after_roll_le hlimit e roller.start (Nat.zero_le _)

theorem evaluate_limited_of_ne
    (h : ((roller.under (some limit)).evaluate e).1 ≠ .error (.fault (.tooManyDice limit))) :
    (roller.under (some limit)).evaluate e =
        (((roller.under none).evaluate e).1,
          ((roller.under none).evaluate e).2.under (some limit)) ∧
      (roller.under (some limit)).drawn e = (roller.under none).drawn e := by
  rcases (Rolling.limits_roll limit e).run roller.start with hsame | hstops
  · exact evaluate_under_congr hsame.1 hsame.2
  · rw [evaluate_under, ne_eq, evaluationOf_eq_error_iff] at h
    exact absurd hstops.outcome h

/-- A success within the limit is the same under it, and one beyond the limit is refused. -/
theorem evaluate_limited_of_ok (hlimit : limit.toNat < UInt32.size - 1) {evaluation : Evaluation}
    (h : ((roller.under none).evaluate e).1 = .ok evaluation) :
    (evaluation.rolls.size ≤ limit.toNat →
        ((roller.under (some limit)).evaluate e).1 = .ok evaluation) ∧
      (limit.toNat < evaluation.rolls.size →
        ((roller.under (some limit)).evaluate e).1 = .error (.fault (.tooManyDice limit))) := by
  have hsize : evaluation.rolls.size = ((roller.under none).drawn e).length := by
    rw [← toList_rolls_eq_drawn h, Array.length_toList]
  constructor
  · intro hle
    rcases (Rolling.limits_roll limit e).run roller.start with hsame | hstops
    · rw [(evaluate_under_congr hsame.1 hsame.2).1, h]
    · rw [evaluate_under, evaluationOf_eq_ok_iff] at h
      have hbeyond := hstops.beyond _ h.1
      rw [← h.2] at hbeyond
      omega
  · intro hlt
    apply Classical.byContradiction
    intro hne
    have hdrawn := (evaluate_limited_of_ne hne).2
    have hle := length_drawn_le hlimit e roller
    rw [hdrawn] at hle
    omega

theorem evaluate_free_of_ok {ceiling : Option UInt32} {evaluation : Evaluation}
    (h : ((roller.under ceiling).evaluate e).1 = .ok evaluation) :
    ((roller.under none).evaluate e).1 = .ok evaluation := by
  cases ceiling with
  | none => exact h
  | some limit =>
    have hne :
        ((roller.under (some limit)).evaluate e).1 ≠ .error (.fault (.tooManyDice limit)) := by
      rw [h]
      rintro ⟨⟩
    rw [(evaluate_limited_of_ne hne).1] at h
    exact h

/-- A success comes again from its own dice, without a ceiling. -/
theorem evaluate_listing_rolls {evaluation : Evaluation}
    (h : (roller.evaluate e).1 = .ok evaluation) :
    ((Roller.mk (Supply.listed evaluation.rolls.toList) none #[]).evaluate e).1 =
      .ok evaluation := by
  have hsame : ((roller.under roller.ceiling).evaluate e).1 = .ok evaluation := h
  have hfree := evaluate_free_of_ok hsame
  have hhalt : ((roller.under none).evaluate e).1 ≠ .error .exhausted := by
    rw [hfree]
    rintro ⟨⟩
  have hagain := evaluate_listing hhalt []
  rw [List.append_nil, ← toList_rolls_eq_drawn hfree] at hagain
  have hnew := evaluate_journal e ((roller.under none).listing evaluation.rolls.toList) #[]
  rw [hagain, hfree] at hnew
  exact hnew

/-- A roll that is refused for too many dice has drawn whole terms, the first that it draws without
the ceiling. -/
theorem drawn_of_tooManyDice
    (h : ((roller.under (some limit)).evaluate e).1 = .error (.fault (.tooManyDice limit))) :
    (roller.under (some limit)).drawn e <+: (roller.under none).drawn e ∧
      ∃ terms : List Event, (∀ term ∈ terms, term.IsWholeTerm) ∧
        (roller.under (some limit)).drawn e = terms.flatMap Event.dice ∧
        ((roller.under (some limit)).evaluate e).2.journal.toList =
          roller.journal.toList ++ terms ∧
        roller.journal.toList ++ terms <+: ((roller.under none).evaluate e).2.journal.toList := by
  rw [evaluate_under, evaluationOf_eq_error_iff] at h
  obtain ⟨terms, rest, hcompletes⟩ := Rolling.termByTerm_roll (some limit) e roller.start
  have hrest : rest = [] := by simpa [h] using hcompletes.inside
  have hrolls : ((e.roll (some limit)).after roller.start).rolls.toList =
      terms.flatMap Event.dice := by
    rw [hcompletes.rolls, hrest, List.append_nil]
    rfl
  have hinitial :
      ((e.roll (some limit)).after roller.start).rolls.toList <+:
          ((e.roll none).after roller.start).rolls.toList ∧
        ((e.roll (some limit)).after roller.start).journal.toList <+:
          ((e.roll none).after roller.start).journal.toList := by
    rcases (Rolling.limits_roll limit e).run roller.start with ⟨-, hsame⟩ | hstops
    · rw [hsame]
      exact ⟨List.prefix_rfl, List.prefix_rfl⟩
    · exact ⟨hstops.rolls, hstops.journal⟩
  rw [drawn_under, drawn_under, hrolls]
  rw [hrolls] at hinitial
  refine ⟨hinitial.1, terms, hcompletes.whole, rfl, ?_, ?_⟩
  · simp only [evaluate_under, h, evaluationOf, closing, Array.append_empty]
    exact hcompletes.journal
  · have hjournal := hinitial.2
    rw [hcompletes.journal] at hjournal
    simp only [evaluate_under, Array.toList_append]
    exact hjournal.trans (List.prefix_append _ _)

/-- Under a ceiling below the largest one an evaluation is the one without a ceiling or is refused
for too many dice, and which of the two is told by the dice of a success. Under the largest one it
is the one without a ceiling. -/
theorem evaluate_under_limit (e : Expr) (roller : Roller σ) (limit : UInt32) :
    (limit.toNat < UInt32.size - 1 →
      ((roller.under (some limit)).drawn e).length ≤ limit.toNat ∧
      (∀ evaluation, ((roller.under none).evaluate e).1 = .ok evaluation →
        (evaluation.rolls.size ≤ limit.toNat →
          ((roller.under (some limit)).evaluate e).1 = .ok evaluation) ∧
        (limit.toNat < evaluation.rolls.size →
          ((roller.under (some limit)).evaluate e).1 = .error (.fault (.tooManyDice limit)))) ∧
      (((roller.under (some limit)).evaluate e).1 ≠ .error (.fault (.tooManyDice limit)) →
        (roller.under (some limit)).evaluate e =
            (((roller.under none).evaluate e).1,
              ((roller.under none).evaluate e).2.under (some limit)) ∧
          (roller.under (some limit)).drawn e = (roller.under none).drawn e) ∧
      (((roller.under (some limit)).evaluate e).1 = .error (.fault (.tooManyDice limit)) →
        (roller.under (some limit)).drawn e <+: (roller.under none).drawn e ∧
        ∃ terms : List Event, (∀ term ∈ terms, term.IsWholeTerm) ∧
          (roller.under (some limit)).drawn e = terms.flatMap Event.dice ∧
          ((roller.under (some limit)).evaluate e).2.journal.toList =
            roller.journal.toList ++ terms ∧
          roller.journal.toList ++ terms <+:
            ((roller.under none).evaluate e).2.journal.toList)) ∧
    (limit.toNat = UInt32.size - 1 →
      (roller.under (some limit)).evaluate e =
          (((roller.under none).evaluate e).1,
            ((roller.under none).evaluate e).2.under (some limit)) ∧
        (roller.under (some limit)).drawn e = (roller.under none).drawn e) := by
  constructor
  · intro hlimit
    exact ⟨length_drawn_le hlimit e roller, fun evaluation => evaluate_limited_of_ok hlimit,
      evaluate_limited_of_ne, drawn_of_tooManyDice⟩
  · intro hlimit
    have hroll := Rolling.roll_largest_limit hlimit e (σ := σ)
    apply evaluate_under_congr
    · rw [hroll]
    · rw [hroll]

end Roller

end DiceNotation
