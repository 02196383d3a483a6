import DiceNotation.Expr.Parse
import DiceNotation.Text.Place

/-!
What the command tells about a text that is no expression: the error, and a label at a place of the
text. The place is the byte that the error points to, counted as if it were a character, so behind
longer characters it lies further on, and may lie outside the text.
-/
namespace DiceNotation.CommandLine

structure Report where
  message : String
  place : Text.Place
  /-- Left out if what it marks is not all in the text. -/
  label : Option String
  deriving DecidableEq, Repr

namespace Report

def headline (error : SyntaxError) : String := "Error: " ++ error.message

def labelText : SyntaxError → String
  | .lex (.unexpectedChar _ _) => "not part of dice notation"
  | .lex (.numberTooLarge _) => "number is too large"
  | .parse ⟨.unexpected found expected, _⟩ => (Fault.unexpected found expected).message
  | .parse ⟨.tooDeep, _⟩ => "expression is too deep"

/-- The bytes of the character that an error points to: the first of them, and the one behind the
last. At the end of a text there are none. -/
def marked (text : String) (error : SyntaxError) : Nat × Nat :=
  let start := min error.position text.utf8ByteSize
  match Text.charAtByte? text.toList start with
  | some c => (start, start + c.utf8Size)
  | none => (start, start)

/-- The report on an error. There is a place for it only if what is marked starts in the text or at
its end, and reaches at most one character further than the text. -/
def ofError? (text : String) (error : SyntaxError) : Option Report :=
  let (start, stop) := marked text error
  if stop ≤ text.length + 1 then
    (Text.Place.ofIndex? text.toList start).map fun place => {
      message := headline error
      place
      label := if stop ≤ text.length then some (labelText error) else none }
  else none

end Report

end DiceNotation.CommandLine
