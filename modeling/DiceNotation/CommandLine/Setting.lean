import DiceNotation.Text.Blank
import DiceNotation.Text.Quoted

/-!
Numbers given to the command by the environment: decimal digits with an optional plus sign and
blanks around them.
-/
namespace DiceNotation.CommandLine

/-- The number that a text is written for, if it is below `bound`. -/
def natural? (bound : Nat) (text : String) : Option Nat :=
  let unsigned :=
    match Text.trimBlanks text.toList with
    | '+' :: digits => digits
    | digits => digits
  if unsigned.isEmpty || !unsigned.all Char.isDigit then none
  else
    let n := Nat.ofDigitChars 10 unsigned 0
    if n < bound then some n else none

/-- A variable of the environment as a number below `bound`, or the complaint about it. -/
def setting (name : String) (bound : Nat) : Option ByteArray → Except String (Option Nat)
  | none => .ok none
  | some bytes =>
    match String.fromUTF8? bytes with
    | none =>
      .error (name ++ ": environment variable was not valid unicode: " ++ Text.quoteBytes bytes)
    | some text =>
      match natural? bound text with
      | some n => .ok (some n)
      | none => .error (name ++ " must be a non-negative integer, not " ++ Text.quote text)

end DiceNotation.CommandLine
