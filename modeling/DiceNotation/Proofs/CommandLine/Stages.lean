import DiceNotation.Proofs.CommandLine.Input
import DiceNotation.Proofs.Roll.InRange
import DiceNotation.Proofs.Roll.Replay
import DiceNotation.Proofs.Session.Rolls

/-!
The command from its input to its end. The stages come one after the other, and the first that fails
ends the command with a complaint. What the stages before it print stays printed.
-/
namespace DiceNotation

namespace Session

variable {σ : Type} {source : σ} {ceiling : Option UInt32} {text : String} {e : Expr}

theorem start_of_ok (h : Expr.ofText text = .ok e) :
    start source ceiling (some text) =
      ⟨some text, .parsed e, source, ceiling, #[] ++ Event.ofReading text⟩ := by
  simp only [start, set, h, new]

theorem state_start_of_error {error : SyntaxError} (h : Expr.ofText text = .error error) :
    (start source ceiling (some text)).state = .invalid error := by
  simp only [start, set, h]

theorem state_start_of_ok (h : Expr.ofText text = .ok e) :
    (start source ceiling (some text)).state = .parsed e := by
  rw [start_of_ok h]

/-- The roll of a session that has just started is a plain evaluation. -/
theorem roll_start [Source σ] (roller : Roller σ) (h : Expr.ofText text = .ok e) :
    (start roller.source roller.ceiling (some text)).roll.1 =
      (roller.evaluate e).1.mapError Failure.ofHalt := by
  have hjournal := Roller.evaluate_journal e roller (#[] ++ Event.ofReading text)
  rw [start_of_ok h, roll_eq, rollWith_eq roller.source rfl]
  exact congrArg (Except.mapError Failure.ofHalt) hjournal

end Session

namespace CommandLine

/-- The stages of the command, in their order. -/
inductive Stage where
  | reading
  | seed
  | limit
  | parsing
  | rolling
  deriving DecidableEq

/-- Lines with their ends. -/
def lines (ls : List String) : String := String.join (ls.map (· ++ "\n"))

/-- The first hundred dice, and how many there are behind them. -/
def listed (rolls : List Value) : String :=
  ", ".intercalate ((rolls.take 100).map Value.text) ++
    if rolls.length ≤ 100 then "" else ", " ++ toString (rolls.length - 100) ++ " more..."

/-- What the command is given, once the stages before the parsing succeed. -/
structure Opens (input : Input) (text : String) (seed limit : Option Nat) : Prop where
  reads : Reads input text
  seed : Sets UInt64.size input.seed seed
  limit : Sets UInt32.size input.maxDice limit

/-- The roller of the command: the generator from the seed, and the limit as the ceiling. -/
def roller (input : Input) (seed limit : Option Nat) : Roller Supply :=
  ⟨Supply.ofSeed ((seed.map UInt64.ofNat).getD input.entropy), limit.map UInt32.ofNat, #[]⟩

section Runs

variable {input : Input} {text : String} {seed limit : Option Nat} {e : Expr}

/-- The stage at which the command fails, if any, and how it ends then. -/
inductive Ends (input : Input) : Option Stage → Outcome → Prop
  | reading (hreads : ∀ text, ¬Reads input text) :
    Ends input (some .reading)
      ⟨1, prompt input.arguments,
        .line "Unable to read expression: stream did not contain valid UTF-8"⟩
  | seed {text complaint : String} (hreads : Reads input text)
    (hseed : Complains "ROLL_SEED" UInt64.size input.seed complaint) :
    Ends input (some .seed) ⟨1, prompt input.arguments, .line complaint⟩
  | limit {text complaint : String} {seed : Option Nat} (hreads : Reads input text)
    (hseed : Sets UInt64.size input.seed seed)
    (hlimit : Complains "ROLL_MAX_DICE" UInt32.size input.maxDice complaint) :
    Ends input (some .limit) ⟨1, prompt input.arguments, .line complaint⟩
  | parsing {text : String} {seed limit : Option Nat} {error : SyntaxError}
    (hopens : Opens input text seed limit) (hparse : Expr.ofText text = .error error) :
    Ends input (some .parsing)
      ⟨1, prompt input.arguments ++ lines ["Input: " ++ text], Complaint.ofError text error⟩
  | rolling {text : String} {seed limit : Option Nat} {e : Expr} {error : EvalError}
    (hopens : Opens input text seed limit) (hparse : Expr.ofText text = .ok e)
    (hroll : ((roller input seed limit).evaluate e).1 = .error (.fault error)) :
    Ends input (some .rolling)
      ⟨1, prompt input.arguments ++
          lines ["Input: " ++ text, "Parsed: " ++ e.display,
            "Deterministic: " ++ toString e.isDeterministic],
        .line ("Evaluation error: evaluation error: " ++ error.message)⟩
  | done {text : String} {seed limit : Option Nat} {e : Expr} {evaluation : Evaluation}
    (hopens : Opens input text seed limit) (hparse : Expr.ofText text = .ok e)
    (hroll : ((roller input seed limit).evaluate e).1 = .ok evaluation) :
    Ends input none
      ⟨0, prompt input.arguments ++
          lines ["Input: " ++ text, "Parsed: " ++ e.display,
            "Deterministic: " ++ toString e.isDeterministic, "",
            "Rolls: [" ++ listed evaluation.rolls.toList ++ "] = " ++ evaluation.total.text,
            "Total: " ++ evaluation.total.text],
        .nothing⟩

theorem openSession_eq (input : Input) :
    openSession input =
      match readText input, setting "ROLL_SEED" UInt64.size input.seed,
        setting "ROLL_MAX_DICE" UInt32.size input.maxDice with
      | .error complaint, _, _ => .error ("Unable to read expression: " ++ complaint)
      | .ok _, .error complaint, _ => .error complaint
      | .ok _, .ok _, .error complaint => .error complaint
      | .ok text, .ok seed, .ok limit =>
        .ok (text, Session.start (roller input seed limit).source (roller input seed limit).ceiling
          (some text)) := by
  unfold openSession
  cases readText input with
  | error complaint => rfl
  | ok text =>
    cases setting "ROLL_SEED" UInt64.size input.seed with
    | error complaint => rfl
    | ok seed => cases setting "ROLL_MAX_DICE" UInt32.size input.maxDice <;> rfl

theorem Opens.openSession_eq (h : Opens input text seed limit) :
    openSession input = .ok (text, Session.start (roller input seed limit).source
      (roller input seed limit).ceiling (some text)) := by
  simp only [CommandLine.openSession_eq, readText_eq_ok_iff.mpr h.reads, h.seed.setting_eq,
    h.limit.setting_eq]

theorem Opens.run_of_error {error : SyntaxError} (h : Opens input text seed limit)
    (hparse : Expr.ofText text = .error error) :
    run input =
      ⟨1, prompt input.arguments ++ "Input: " ++ text ++ "\n", Complaint.ofError text error⟩ := by
  simp only [run, h.openSession_eq, Session.state_start_of_error hparse, Session.State.syntaxError?]

/-- How the command ends after a roll. -/
def ending (shown : String) : Except Halt Evaluation → Outcome
  | .ok evaluation => ⟨0, shown ++ rolledLines evaluation, .nothing⟩
  | .error halt =>
    ⟨1, shown, .line ("Evaluation error: " ++ (Session.Failure.ofHalt halt).message)⟩

theorem Opens.run_of_ok (h : Opens input text seed limit) (hparse : Expr.ofText text = .ok e) :
    run input =
      ending (prompt input.arguments ++ "Input: " ++ text ++ "\n" ++ parsedLines e)
        ((roller input seed limit).evaluate e).1 := by
  have hanswer := Session.roll_start (roller input seed limit) hparse
  simp only [run, h.openSession_eq, Session.state_start_of_ok hparse, Session.State.syntaxError?,
    Session.State.expr?, Option.map_some, Option.getD_some, hanswer]
  cases ((roller input seed limit).evaluate e).1 with
  | ok evaluation => rfl
  | error halt => rfl

theorem lines_cons (l : String) (ls : List String) : lines (l :: ls) = l ++ "\n" ++ lines ls := by
  simp [lines]

theorem lines_nil : lines [] = "" := rfl

theorem parsedLines_eq (e : Expr) :
    parsedLines e =
      lines ["Parsed: " ++ e.display, "Deterministic: " ++ toString e.isDeterministic] := by
  have hline : "\nDeterministic: " = "\n" ++ "Deterministic: " := rfl
  simp only [parsedLines, lines_cons, lines_nil, hline, String.append_assoc, String.append_empty]

theorem rolledLines_eq (evaluation : Evaluation) :
    rolledLines evaluation =
      lines ["", "Rolls: [" ++ listed evaluation.rolls.toList ++ "] = " ++ evaluation.total.text,
        "Total: " ++ evaluation.total.text] := by
  have hrolls : "\nRolls: " = "\n" ++ "Rolls: " := rfl
  have hbracket : "Rolls: [" = "Rolls: " ++ "[" := rfl
  have htotal : "\nTotal: " = "\n" ++ "Total: " := rfl
  have hdescribe : evaluation.describe (some listLimit) =
      "[" ++ listed evaluation.rolls.toList ++ "] = " ++ evaluation.total.text := by
    simp only [Evaluation.describe, Evaluation.join, listed, Option.getD_some, listLimit,
      Array.length_toList, Nat.sub_eq_zero_iff_le, String.append_assoc]
  simp only [rolledLines, lines_cons, lines_nil, hdescribe, hrolls, hbracket, htotal,
    String.append_assoc, String.empty_append, String.append_empty]

/-- The stage that fails first. -/
def failing? (input : Input) : Option Stage :=
  match readText input, setting "ROLL_SEED" UInt64.size input.seed,
    setting "ROLL_MAX_DICE" UInt32.size input.maxDice with
  | .error _, _, _ => some .reading
  | .ok _, .error _, _ => some .seed
  | .ok _, .ok _, .error _ => some .limit
  | .ok text, .ok seed, .ok limit =>
    match Expr.ofText text with
    | .error _ => some .parsing
    | .ok e =>
      match ((roller input seed limit).evaluate e).1 with
      | .error _ => some .rolling
      | .ok _ => none

theorem Opens.failing?_eq (h : Opens input text seed limit) :
    failing? input =
      match Expr.ofText text with
      | .error _ => some .parsing
      | .ok e =>
        match ((roller input seed limit).evaluate e).1 with
        | .error _ => some .rolling
        | .ok _ => none := by
  simp only [failing?, readText_eq_ok_iff.mpr h.reads, h.seed.setting_eq, h.limit.setting_eq]

theorem Ends.eq {stage : Option Stage} {outcome : Outcome} (h : Ends input stage outcome) :
    failing? input = stage ∧ run input = outcome := by
  cases h with
  | reading hreads =>
    have hread : readText input = .error "stream did not contain valid UTF-8" :=
      (readText_cases input).resolve_right fun ⟨text, htext⟩ => hreads text htext
    refine ⟨by simp only [failing?, hread], ?_⟩
    simp only [run, openSession_eq, hread]
    rfl
  | seed hreads hseed =>
    have hread := readText_eq_ok_iff.mpr hreads
    refine ⟨by simp only [failing?, hread, hseed.setting_eq], ?_⟩
    simp only [run, openSession_eq, hread, hseed.setting_eq]
  | limit hreads hseed hlimit =>
    have hread := readText_eq_ok_iff.mpr hreads
    refine ⟨by simp only [failing?, hread, hseed.setting_eq, hlimit.setting_eq], ?_⟩
    simp only [run, openSession_eq, hread, hseed.setting_eq, hlimit.setting_eq]
  | parsing hopens hparse =>
    refine ⟨by simp only [hopens.failing?_eq, hparse], ?_⟩
    rw [hopens.run_of_error hparse]
    simp only [lines_cons, lines_nil, String.append_assoc, String.append_empty]
  | rolling hopens hparse hroll =>
    refine ⟨by simp only [hopens.failing?_eq, hparse, hroll], ?_⟩
    rw [hopens.run_of_ok hparse, hroll, ending, parsedLines_eq]
    simp only [lines_cons, lines_nil, String.append_assoc, String.append_empty]
    rfl
  | done hopens hparse hroll =>
    refine ⟨by simp only [hopens.failing?_eq, hparse, hroll], ?_⟩
    rw [hopens.run_of_ok hparse, hroll, ending, parsedLines_eq, rolledLines_eq]
    simp only [lines_cons, lines_nil, String.append_assoc, String.append_empty]

theorem exists_ends (input : Input) : ∃ stage outcome, Ends input stage outcome := by
  by_cases hreads : ∃ text, Reads input text
  · obtain ⟨text, hreads⟩ := hreads
    obtain ⟨seed, hseed⟩ | ⟨complaint, hseed⟩ :=
      sets_or_complains "ROLL_SEED" UInt64.size input.seed
    · obtain ⟨limit, hlimit⟩ | ⟨complaint, hlimit⟩ :=
        sets_or_complains "ROLL_MAX_DICE" UInt32.size input.maxDice
      · have hopens : Opens input text seed limit := ⟨hreads, hseed, hlimit⟩
        cases hparse : Expr.ofText text with
        | error error => exact ⟨_, _, .parsing hopens hparse⟩
        | ok e =>
          cases hroll : ((roller input seed limit).evaluate e).1 with
          | ok evaluation => exact ⟨_, _, .done hopens hparse hroll⟩
          | error halt =>
            cases halt with
            | fault error => exact ⟨_, _, .rolling hopens hparse hroll⟩
            | exhausted => exact absurd hroll (Roller.evaluate_answered (Supply.inRange_ofSeed _) e)
      · exact ⟨_, _, .limit hreads hseed hlimit⟩
    · exact ⟨_, _, .seed hreads hseed⟩
  · exact ⟨_, _, .reading fun text htext => hreads ⟨text, htext⟩⟩

theorem Complaint.ofError_ne_nothing (text : String) (error : SyntaxError) :
    ofError text error ≠ .nothing := by
  unfold ofError
  cases Report.ofError? text error with
  | none => exact nofun
  | some report => exact nofun

theorem Ends.status {stage : Option Stage} {outcome : Outcome} (h : Ends input stage outcome) :
    outcome.code = (if stage = none then 0 else 1) ∧
      (outcome.stderr = .nothing ↔ stage = none) := by
  cases h with
  | reading | seed | limit | rolling => exact ⟨rfl, iff_of_false nofun nofun⟩
  | parsing => exact ⟨rfl, iff_of_false (Complaint.ofError_ne_nothing _ _) nofun⟩
  | done => exact ⟨rfl, iff_of_true rfl rfl⟩

/-- The command ends in exactly one way: at its first stage that fails, or with all of them done. It
succeeds exactly if no stage fails, and then complains of nothing. -/
theorem run_ends (input : Input) :
    ∃ stage, (∀ stage' outcome, Ends input stage' outcome ↔
        stage' = stage ∧ outcome = run input) ∧
      (run input).code = (if stage = none then 0 else 1) ∧
      ((run input).stderr = .nothing ↔ stage = none) := by
  obtain ⟨stage, outcome, hends⟩ := exists_ends input
  obtain ⟨hstage, hrun⟩ := hends.eq
  refine ⟨stage, fun stage' outcome' => ⟨fun hends' => ?_, ?_⟩, ?_⟩
  · obtain ⟨hstage', hrun'⟩ := hends'.eq
    exact ⟨hstage'.symm.trans hstage, hrun'.symm⟩
  · rintro ⟨rfl, rfl⟩
    rwa [hrun]
  · rw [hrun]
    exact hends.status

end Runs

end CommandLine

end DiceNotation
