import DiceNotation.Proofs.Roll.Actions

/-!
A roll goes term by term. The dice of each term stand together, as many as the term counts, and the
term is noted behind its last die. Only a roll that halts inside a term has dice of no whole term.
-/
namespace DiceNotation

namespace Event

/-- The dice of a complete term. -/
def dice : Event → List Value
  | termRolled _ _ rolls _ => rolls
  | _ => []

/-- Whether the event is a dice term with all its dice. -/
def IsWholeTerm (event : Event) : Prop :=
  ∃ count sides rolls sum, event = .termRolled count sides rolls sum ∧ rolls.length = count

end Event

namespace Rolling

variable {σ : Type}

/-- The action rolls whole terms in the run, noting each, and then the dice of a term that it does
not complete. There are none of these unless it halts inside a term. -/
structure Completes (m : Rolling σ Value) (run : Run σ) (terms : List Event) (rest : List Value) :
    Prop where
  journal : (m.after run).journal.toList = run.journal.toList ++ terms
  rolls : (m.after run).rolls.toList = run.rolls.toList ++ (terms.flatMap Event.dice ++ rest)
  whole : ∀ term ∈ terms, term.IsWholeTerm
  inside : rest = [] ∨ m.outcome run = .error (.fault .overflow) ∨
    m.outcome run = .error .exhausted

def TermByTerm (m : Rolling σ Value) : Prop := ∀ run, ∃ terms rest, Completes m run terms rest

namespace Completes

variable {m : Rolling σ Value} {f : Value → Rolling σ Value} {run : Run σ}
  {terms terms' : List Event} {rest rest' : List Value}

theorem of_still (h : m.after run = run) : Completes m run [] [] := by
  refine ⟨?_, ?_, nofun, .inl rfl⟩
  · rw [h, List.append_nil]
  · rw [h]
    exact (List.append_nil _).symm

theorem bind_error {halt : Halt} (first : Completes m run terms rest)
    (hm : m.outcome run = .error halt) : Completes (m >>= f) run terms rest := by
  have hinside := first.inside
  rw [hm] at hinside
  refine ⟨?_, ?_, first.whole, ?_⟩
  · rw [after_bind_of_error hm, first.journal]
  · rw [after_bind_of_error hm, first.rolls]
  · rw [outcome_bind_of_error hm]
    simpa only [Except.error.injEq] using hinside

theorem bind_ok {value : Value} (first : Completes m run terms rest)
    (hm : m.outcome run = .ok value) (next : Completes (f value) (m.after run) terms' rest') :
    Completes (m >>= f) run (terms ++ terms') rest' := by
  have hnothing : rest = [] := by simpa [hm] using first.inside
  refine ⟨?_, ?_, ?_, ?_⟩
  · rw [after_bind_of_ok hm, next.journal, first.journal, List.append_assoc]
  · rw [after_bind_of_ok hm, next.rolls, first.rolls, hnothing, List.append_nil,
      List.flatMap_append, List.append_assoc, List.append_assoc]
  · intro term hterm
    rcases List.mem_append.mp hterm with hfirst | hnext
    · exact first.whole term hfirst
    · exact next.whole term hnext
  · rw [outcome_bind_of_ok hm]
    exact next.inside

theorem congr {m' : Rolling σ Value} (h' : Completes m' run terms rest) (h : m run = m' run) :
    Completes m run terms rest := by
  refine ⟨?_, ?_, h'.whole, ?_⟩
  · rw [after_congr h, h'.journal]
  · rw [after_congr h, h'.rolls]
  · rw [outcome_congr h]
    exact h'.inside

end Completes

theorem TermByTerm.bind {m : Rolling σ Value} {f : Value → Rolling σ Value} (first : TermByTerm m)
    (next : ∀ value, TermByTerm (f value)) : TermByTerm (m >>= f) := by
  intro run
  obtain ⟨terms, rest, hfirst⟩ := first run
  cases hm : m.outcome run with
  | error halt => exact ⟨terms, rest, hfirst.bind_error hm⟩
  | ok value =>
    obtain ⟨terms', rest', hnext⟩ := next value (m.after run)
    exact ⟨terms ++ terms', rest', hfirst.bind_ok hm hnext⟩

variable [Source σ]

/-- Dice are drawn up to their number. Fewer are drawn only if the sum overflows or the source runs
out. -/
theorem dice_draws (sides : Value) (count : Nat) (sum : Value) (run : Run σ) :
    ∃ drawn, ((dice sides count sum).after run).rolls.toList = run.rolls.toList ++ drawn ∧
      ((dice sides count sum).after run).journal = run.journal ∧
      (∀ value, (dice sides count sum).outcome run = .ok value → drawn.length = count) ∧
      (∀ halt, (dice sides count sum).outcome run = .error halt →
        drawn.length ≤ count ∧ (halt = .fault .overflow ∨ halt = .exhausted)) := by
  induction count generalizing sum run with
  | zero =>
    refine ⟨[], (List.append_nil _).symm, rfl, fun value _ => rfl, ?_⟩
    rintro halt ⟨⟩
  | succ count ih =>
    rcases hdraw : Source.draw 1 sides run.source with ⟨answer, source⟩
    have houtcome := outcome_die sides run
    have hafter := after_die sides run
    rw [hdraw] at houtcome hafter
    unfold dice
    cases answer with
    | none =>
      rw [outcome_bind_of_error houtcome, after_bind_of_error houtcome, hafter]
      refine ⟨[], (List.append_nil _).symm, rfl, ?_, ?_⟩
      · rintro value ⟨⟩
      · rintro halt ⟨⟩
        exact ⟨Nat.zero_le _, .inr rfl⟩
    | some value =>
      rw [outcome_bind_of_ok houtcome, after_bind_of_ok houtcome, hafter]
      cases hsum : sum.add? value with
      | none =>
        refine ⟨[value], Array.toList_push, rfl, ?_, ?_⟩
        · rintro value ⟨⟩
        · rintro halt ⟨⟩
          exact ⟨Nat.le_add_left 1 count, .inl rfl⟩
      | some sum =>
        obtain ⟨drawn, hrolls, hjournal, hok, herror⟩ :=
          ih sum ⟨source, run.rolls.push value, run.journal⟩
        refine ⟨value :: drawn, ?_, hjournal, ?_, ?_⟩
        · refine hrolls.trans ?_
          rw [Array.toList_push, List.append_assoc]
          rfl
        · intro total htotal
          rw [List.length_cons, hok total htotal]
        · intro halt hhalt
          obtain ⟨hle, hreason⟩ := herror halt hhalt
          exact ⟨Nat.succ_le_succ hle, hreason⟩

section Note

variable {count sides : Value} {run : Run σ} {drawn : List Value}

/-- Dice that break off are of no whole term, and nothing is noted. -/
theorem completes_of_dice_error {halt : Halt}
    (hdice : (dice sides count.toInt.toNat 0).outcome run = .error halt)
    (hrolls : ((dice sides count.toInt.toNat 0).after run).rolls.toList =
      run.rolls.toList ++ drawn) :
    Completes (dice sides count.toInt.toNat 0 >>= note count sides run.rolls.size) run []
      drawn := by
  obtain ⟨_, -, hjournal, -, herror⟩ := dice_draws sides count.toInt.toNat 0 run
  refine ⟨?_, ?_, nofun, .inr ?_⟩
  · rw [after_bind_of_error hdice, hjournal, List.append_nil]
  · rw [after_bind_of_error hdice, hrolls]
    rfl
  · rw [outcome_bind_of_error hdice]
    rcases (herror halt hdice).2 with rfl | rfl
    · exact .inl rfl
    · exact .inr rfl

/-- The note of a term tells its dice, which are the last ones drawn. -/
theorem completes_of_dice_ok {sum : Value}
    (hdice : (dice sides count.toInt.toNat 0).outcome run = .ok sum)
    (hrolls : ((dice sides count.toInt.toNat 0).after run).rolls.toList =
      run.rolls.toList ++ drawn) :
    Completes (dice sides count.toInt.toNat 0 >>= note count sides run.rolls.size) run
      [.termRolled count.toInt.toNat sides drawn sum] [] := by
  obtain ⟨drawn', hrolls', hjournal, hok, -⟩ := dice_draws sides count.toInt.toNat 0 run
  obtain rfl : drawn' = drawn := List.append_cancel_left (hrolls'.symm.trans hrolls)
  have hsize : ((dice sides count.toInt.toNat 0).after run).rolls.size =
      run.rolls.size + drawn'.length := by
    rw [← Array.length_toList, hrolls, List.length_append, Array.length_toList]
  have hdrawn : (((dice sides count.toInt.toNat 0).after run).rolls.extract run.rolls.size
      ((dice sides count.toInt.toNat 0).after run).rolls.size).toList = drawn' := by
    rw [Array.toList_extract, hrolls, hsize, ← Array.length_toList]
    simp
  refine ⟨?_, ?_, ?_, .inl rfl⟩
  · rw [after_bind_of_ok hdice, after_note, hdrawn, hjournal, Array.toList_push]
  · rw [after_bind_of_ok hdice, after_note, hrolls]
    simp [Event.dice]
  · intro term hterm
    exact ⟨_, _, _, _, List.mem_singleton.mp hterm, hok sum hdice⟩

end Note

/-- The dice of a term with the note of it are a whole term, unless they break off. -/
theorem completes_dice (count sides : Value) (run : Run σ) :
    ∃ terms rest, Completes (dice sides count.toInt.toNat 0 >>= note count sides run.rolls.size) run
      terms rest := by
  obtain ⟨drawn, hrolls, -⟩ := dice_draws sides count.toInt.toNat 0 run
  cases hdice : (dice sides count.toInt.toNat 0).outcome run with
  | error halt => exact ⟨[], drawn, completes_of_dice_error hdice hrolls⟩
  | ok sum => exact ⟨_, [], completes_of_dice_ok hdice hrolls⟩

theorem termByTerm_term (ceiling : Option UInt32) (count sides : Value) :
    TermByTerm (term ceiling count sides : Rolling σ Value) := by
  intro run
  cases hrefusal : refusal? ceiling run.rolls.size count sides with
  | some error => exact ⟨[], [], .of_still (after_congr (term_refused hrefusal))⟩
  | none =>
    obtain ⟨terms, rest, hcompletes⟩ := completes_dice count sides run
    exact ⟨terms, rest, hcompletes.congr (term_accepted hrefusal)⟩

/-- A roll goes term by term, whatever the ceiling is. -/
theorem termByTerm_roll (ceiling : Option UInt32) (e : Expr) :
    TermByTerm (e.roll ceiling : Rolling σ Value) := by
  have hcompatible : Compatible ceiling ceiling
      fun (m : Rolling σ Value) (_ : Rolling σ Value) => TermByTerm m := {
    pure := fun value run => ⟨[], [], .of_still rfl⟩
    fault := fun error run => ⟨[], [], .of_still rfl⟩
    bind := fun first next => first.bind next
    term := termByTerm_term ceiling }
  exact hcompatible.roll e

/-- A term that is not refused adds its count to the dice, or fewer if it breaks off. -/
theorem size_after_dice (count sides : Value) (before : Nat) (run : Run σ) :
    ((dice sides count.toInt.toNat 0 >>= note count sides before).after run).rolls.size ≤
        run.rolls.size + count.toInt.toNat ∧
      ∀ value,
        (dice sides count.toInt.toNat 0 >>= note count sides before).outcome run = .ok value →
        ((dice sides count.toInt.toNat 0 >>= note count sides before).after run).rolls.size =
          run.rolls.size + count.toInt.toNat := by
  obtain ⟨drawn, hrolls, -, hok, herror⟩ := dice_draws sides count.toInt.toNat 0 run
  have hsize := congrArg List.length hrolls
  rw [List.length_append, Array.length_toList, Array.length_toList] at hsize
  cases hdice : (dice sides count.toInt.toNat 0).outcome run with
  | error halt =>
    have hle := (herror halt hdice).1
    rw [after_bind_of_error hdice, outcome_bind_of_error hdice]
    refine ⟨by omega, ?_⟩
    rintro value ⟨⟩
  | ok sum =>
    have hlength := hok sum hdice
    rw [after_bind_of_ok hdice, after_note, hsize, hlength]
    exact ⟨Nat.le_refl _, fun value _ => rfl⟩

end Rolling

end DiceNotation
