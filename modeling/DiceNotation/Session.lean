import DiceNotation.Evaluation.Roll

/-!
A session holds one expression with the outcome of its latest roll. A new text drops the outcome, so
a result always belongs to the text that is set.
-/
namespace DiceNotation

namespace Session

/-- Where the expression of a session stands. -/
inductive State where
  | empty
  | parsed (e : Expr)
  /-- The latest roll succeeded. -/
  | evaluated (e : Expr) (evaluation : Evaluation)
  | invalid (error : SyntaxError)
  deriving DecidableEq

namespace State

def expr? : State → Option Expr
  | parsed e | evaluated e _ => some e
  | empty | invalid _ => none

def syntaxError? : State → Option SyntaxError
  | invalid error => some error
  | _ => none

def evaluation? : State → Option Evaluation
  | evaluated _ evaluation => some evaluation
  | _ => none

end State

/-- Why an operation of a session gives no answer. -/
inductive Failure where
  | malformed (error : SyntaxError)
  | fault (error : EvalError)
  | notParsed
  | noResult
  | exhausted
  deriving DecidableEq, Repr

namespace Failure

def message : Failure → String
  | malformed error => error.message
  | fault error => "evaluation error: " ++ error.message
  | notParsed => "no valid expression has been set"
  | noResult => "the expression hasn't been rolled yet"
  | exhausted => Halt.exhausted.message

end Failure

end Session

structure Session (σ : Type) where
  text : Option String
  state : Session.State
  source : σ
  ceiling : Option UInt32
  journal : Array Event

namespace Session

variable {σ τ : Type}

/-- A session without an expression. -/
def new (source : σ) : Session σ := ⟨none, .empty, source, none, #[]⟩

/-- A malformed text is kept as well as a well-formed one. -/
def set (text : String) (s : Session σ) : Except SyntaxError Unit × Session σ :=
  let journal := s.journal ++ Event.ofReading text
  match Expr.ofText text with
  | .ok e => (.ok (), { s with text := some text, state := .parsed e, journal })
  | .error error =>
    (.error error,
      { s with
        text := some text, state := .invalid error, journal := journal.push (.invalidated error) })

/-- A session with a ceiling and, if one is given, an expression. -/
def start (source : σ) (ceiling : Option UInt32) (text : Option String) : Session σ :=
  let s := { new source with ceiling }
  match text with
  | some text => (s.set text).2
  | none => s

def setCeiling (ceiling : Option UInt32) (s : Session σ) : Session σ := { s with ceiling }

def isValid (s : Session σ) : Bool := s.state.expr?.isSome

def evaluation (s : Session σ) : Except Failure Evaluation :=
  match s.state.evaluation? with
  | some evaluation => .ok evaluation
  | none => .error .noResult

/-- The total of the latest roll. -/
def result (s : Session σ) : Except Failure Value := s.evaluation.map Evaluation.total

/-- Rolls the expression from a source beside the session's own. A roll that fails leaves no
outcome, and one whose source runs out leaves no expression either, but the text stays. -/
def rollWith [Source τ] (source : τ) (s : Session σ) :
    Except Failure Evaluation × Session σ × τ :=
  match s.state.expr? with
  | none => (.error .notParsed, s, source)
  | some e =>
    let (outcome, roller) := Roller.evaluate e ⟨source, s.ceiling, s.journal⟩
    let journal := roller.journal
    match outcome with
    | .ok evaluation =>
      let s := { s with
        state := .evaluated e evaluation,
        journal := journal.push (.sessionRolled e evaluation) }
      (s.evaluation, s, roller.source)
    | .error (.fault error) =>
      (.error (.fault error),
        { s with state := .parsed e, journal := journal.push (.sessionFailed e error) },
        roller.source)
    | .error .exhausted => (.error .exhausted, { s with state := .empty, journal }, roller.source)

/-- Rolls the expression from the session's own source. -/
def roll [Source σ] (s : Session σ) : Except Failure Evaluation × Session σ :=
  let (answer, s', source) := s.rollWith s.source
  (answer, { s' with source })

/-- Reads and rolls a text once, in a session with no ceiling. -/
def once [Source σ] (source : σ) (text : String) : Except Failure Value × Session σ :=
  match (new source).set text with
  | (.error error, s) => (.error (.malformed error), s)
  | (.ok (), s) =>
    match s.roll with
    | (.error failure, s) => (.error failure, s)
    | (.ok _, s) => (s.result, s)

end Session

end DiceNotation
