import DiceNotation.CommandLine

/-!
The command `roll` as a program.
-/
namespace DiceNotation.CommandLine

/-- The bytes of one line of a stream, with its end. -/
partial def readLine (stream : IO.FS.Stream) (line : ByteArray) : IO ByteArray := do
  let byte ← stream.read 1
  if byte.isEmpty || byte.get! 0 == 0x0A then return line ++ byte
  else readLine stream (line ++ byte)

def writeReport (report : Report) : IO Unit := do
  IO.eprintln report.message
  let place := toString report.place.line ++ ":" ++ toString report.place.column
  IO.eprintln ("  " ++ place ++ (report.label.map (": " ++ ·)).getD "")

def writeComplaint : Complaint → IO Unit
  | .nothing => pure ()
  | .line text => IO.eprintln text
  | .report report => writeReport report

/-- Asks, reads, runs and writes. What is asked is written before the input is read. -/
def execute (arguments : List String) : IO UInt32 := do
  let asked := prompt arguments
  IO.print asked
  (← IO.getStdout).flush
  let stdin ← if arguments.isEmpty then readLine (← IO.getStdin) .empty else pure .empty
  let seed := (← IO.getEnv "ROLL_SEED").map String.toUTF8
  let maxDice := (← IO.getEnv "ROLL_MAX_DICE").map String.toUTF8
  let entropy := (← IO.getRandomBytes 8).foldl (fun n byte => n * 256 + byte.toUInt64) 0
  let outcome := run { arguments, stdin, seed, maxDice, entropy }
  IO.print (outcome.stdout.drop asked.length)
  writeComplaint outcome.stderr
  return outcome.code.toUInt32

end DiceNotation.CommandLine

def main (arguments : List String) : IO UInt32 :=
  DiceNotation.CommandLine.execute arguments
