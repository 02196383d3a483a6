import DiceNotation.CommandLine.Report
import DiceNotation.CommandLine.Setting
import DiceNotation.Session

/-!
The command `roll`: it takes an expression from its arguments or from the first line of its input,
rolls it, and prints it with the outcome. What is wrong is found in a fixed order: the input, the
two settings, the notation, the roll. What was printed before a fault is found stays printed.
-/
namespace DiceNotation.CommandLine

structure Input where
  arguments : List String
  stdin : ByteArray
  /-- The variables `ROLL_SEED` and `ROLL_MAX_DICE`. -/
  seed : Option ByteArray
  maxDice : Option ByteArray
  /-- Seeds the generator when the environment does not. -/
  entropy : UInt64

/-- What the command writes beside its output. -/
inductive Complaint where
  | nothing
  | line (text : String)
  | report (report : Report)
  deriving DecidableEq, Repr

/-- A report on an error, or a line about it where there is no place to report. -/
def Complaint.ofError (text : String) (error : SyntaxError) : Complaint :=
  ((Report.ofError? text error).map report).getD (line (Report.headline error))

structure Outcome where
  code : UInt8
  stdout : String
  stderr : Complaint
  deriving DecidableEq, Repr

/-- The number of dice that are listed. -/
def listLimit : Nat := 100

/-- What is asked before a line of input is read. -/
def prompt (arguments : List String) : String :=
  if arguments.isEmpty then "Enter dice expression: " else ""

/-- The first line without its end. -/
def firstLine (bytes : ByteArray) : Except String String :=
  let line := bytes.toList.takeWhile (· != 0x0A)
  let ended := line.length < bytes.size
  match String.fromUTF8? line.toByteArray with
  | none => .error "stream did not contain valid UTF-8"
  | some text =>
    if ended && text.toList.getLast? == some '\r' then .ok (String.ofList text.toList.dropLast)
    else .ok text

/-- The text of the expression. -/
def readText (input : Input) : Except String String :=
  if input.arguments.isEmpty then firstLine input.stdin
  else .ok (" ".intercalate input.arguments)

/-- The session for the text, with the settings of the environment. -/
def openSession (input : Input) : Except String (String × Session Supply) := do
  let text ← (readText input).mapError ("Unable to read expression: " ++ ·)
  let seed ← setting "ROLL_SEED" UInt64.size input.seed
  let limit ← setting "ROLL_MAX_DICE" UInt32.size input.maxDice
  let seed := (seed.map UInt64.ofNat).getD input.entropy
  return (text, Session.start (Supply.ofSeed seed) (limit.map UInt32.ofNat) (some text))

/-- What is printed about an expression before it is rolled. -/
def parsedLines (e : Expr) : String :=
  "Parsed: " ++ e.display ++ "\nDeterministic: " ++ toString e.isDeterministic ++ "\n"

def rolledLines (e : Evaluation) : String :=
  "\nRolls: " ++ e.describe (some listLimit) ++ "\nTotal: " ++ e.total.text ++ "\n"

def run (input : Input) : Outcome :=
  let asked := prompt input.arguments
  match openSession input with
  | .error complaint => ⟨1, asked, .line complaint⟩
  | .ok (text, session) =>
    let shown := asked ++ "Input: " ++ text ++ "\n"
    match session.state.syntaxError? with
    | some error => ⟨1, shown, Complaint.ofError text error⟩
    | none =>
      let shown := shown ++ (session.state.expr?.map parsedLines).getD ""
      match session.roll.1 with
      | .ok evaluation => ⟨0, shown ++ rolledLines evaluation, .nothing⟩
      | .error failure => ⟨1, shown, .line ("Evaluation error: " ++ failure.message)⟩

end DiceNotation.CommandLine
