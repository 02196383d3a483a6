import DiceNotation.Session
import Mathlib.Data.List.DropRight
import Mathlib.Logic.Function.Basic

/-!
Sessions at work. A session is used together with further sources, by operations one after the other
that each have an answer. The operations with their answers are a history, and what it tells about
the text that is set and the rolls of that text does not look at the session.
-/
namespace DiceNotation

namespace Session

/-- How a session begins: empty, or built with a ceiling and perhaps a text. -/
inductive Opening where
  | new
  | built (ceiling : Option UInt32) (text : Option String)

namespace Opening

def session {σ : Type} (source : σ) : Opening → Session σ
  | new => Session.new source
  | built ceiling text => start source ceiling text

def text : Opening → Option String
  | new => none
  | built _ text => text

end Opening

/-- What a session tells without a change. -/
inductive Query where
  | text
  | expr
  | state
  | isValid
  | syntaxError
  | evaluation
  | result

/-- What is done with a session and further sources, which are named by `ι`. -/
inductive Operation (ι : Type) where
  | set (text : String)
  | setCeiling (ceiling : Option UInt32)
  | roll
  | rollWith (i : ι)
  | ask (query : Query)

def Operation.isRoll {ι : Type} : Operation ι → Bool
  | roll | rollWith _ => true
  | set _ | setCeiling _ | ask _ => false

/-- What an operation answers. -/
inductive Answer where
  | set (reading : Except SyntaxError Unit)
  | done
  | rolled (outcome : Except Failure Evaluation)
  | text (text : Option String)
  | expr (e : Option Expr)
  | state (state : State)
  | isValid (valid : Bool)
  | syntaxError (error : Option SyntaxError)
  | evaluation (evaluation : Except Failure Evaluation)
  | result (total : Except Failure Value)

def ask {σ : Type} (s : Session σ) : Query → Answer
  | .text => .text s.text
  | .expr => .expr s.state.expr?
  | .state => .state s.state
  | .isValid => .isValid s.isValid
  | .syntaxError => .syntaxError s.state.syntaxError?
  | .evaluation => .evaluation s.evaluation
  | .result => .result s.result

/-- A session with the further sources at hand. -/
structure World (σ : Type) {ι : Type} (τ : ι → Type) where
  session : Session σ
  sources : ∀ i, τ i

namespace World

variable {σ ι : Type} {τ : ι → Type} [Source σ] [∀ i, Source (τ i)] [DecidableEq ι]

/-- A roll with a further source changes that one of the sources only. -/
def perform (w : World σ τ) : Operation ι → Answer × World σ τ
  | .set text =>
    let (reading, session) := w.session.set text
    (.set reading, { w with session })
  | .setCeiling ceiling => (.done, { w with session := w.session.setCeiling ceiling })
  | .roll =>
    let (outcome, session) := w.session.roll
    (.rolled outcome, { w with session })
  | .rollWith i =>
    let (outcome, session, source) := w.session.rollWith (w.sources i)
    (.rolled outcome, ⟨session, Function.update w.sources i source⟩)
  | .ask query => (w.session.ask query, w)

theorem perform_roll (w : World σ τ) :
    w.perform .roll = (.rolled w.session.roll.1, { w with session := w.session.roll.2 }) := rfl

theorem perform_rollWith (w : World σ τ) (i : ι) :
    w.perform (.rollWith i) =
      (.rolled (w.session.rollWith (w.sources i)).1,
        ⟨(w.session.rollWith (w.sources i)).2.1,
          Function.update w.sources i (w.session.rollWith (w.sources i)).2.2⟩) := rfl

/-- Operations one after the other, each with its answer. -/
def run (w : World σ τ) : List (Operation ι) → List (Operation ι × Answer) × World σ τ
  | [] => ([], w)
  | op :: ops =>
    let (answer, next) := w.perform op
    let (history, last) := next.run ops
    ((op, answer) :: history, last)

end World

namespace History

variable {ι : Type} {opening : Option String} {history : List (Operation ι × Answer)}
  {entry : Operation ι × Answer}

/-- The text that an operation sets. -/
def text? : Operation ι × Answer → Option String
  | (.set text, _) => some text
  | _ => none

/-- The outcome that a roll answers with, refusals among them. -/
def outcome? : Operation ι × Answer → Option (Except Failure Evaluation)
  | (_, .rolled outcome) => some outcome
  | _ => none

/-- The text last set, by an operation or else when the session was opened. -/
def text (opening : Option String) (history : List (Operation ι × Answer)) : Option String :=
  (history.filterMap text?).getLast?.or opening

/-- How the rolls ended that came after the text was last set. -/
def outcomes (history : List (Operation ι × Answer)) : List (Except Failure Evaluation) :=
  (history.rtakeWhile fun entry => (text? entry).isNone).filterMap outcome?

theorem text_set {t : String} (h : text? entry = some t) :
    text opening (history ++ [entry]) = some t := by
  unfold text
  rw [List.filterMap_append, List.filterMap_cons_some h, List.filterMap_nil, List.getLast?_concat]
  rfl

theorem outcomes_set {t : String} (h : text? entry = some t) :
    outcomes (history ++ [entry]) = [] := by
  unfold outcomes
  rw [List.rtakeWhile_concat_neg]
  · rfl
  · simp [h]

theorem text_append (h : text? entry = none) :
    text opening (history ++ [entry]) = text opening history := by
  unfold text
  rw [List.filterMap_append, List.filterMap_cons_none h, List.filterMap_nil, List.append_nil]

theorem outcomes_append (h : text? entry = none) :
    outcomes (history ++ [entry]) = outcomes history ++ [entry].filterMap outcome? := by
  unfold outcomes
  rw [List.rtakeWhile_concat_pos, List.filterMap_append]
  simp [h]

theorem outcomes_rolled {outcome : Except Failure Evaluation} (h : text? entry = none)
    (houtcome : outcome? entry = some outcome) :
    outcomes (history ++ [entry]) = outcomes history ++ [outcome] := by
  rw [outcomes_append h, List.filterMap_cons_some houtcome, List.filterMap_nil]

theorem outcomes_still (h : text? entry = none) (houtcome : outcome? entry = none) :
    outcomes (history ++ [entry]) = outcomes history := by
  rw [outcomes_append h, List.filterMap_cons_none houtcome, List.filterMap_nil, List.append_nil]

end History

end Session

end DiceNotation
