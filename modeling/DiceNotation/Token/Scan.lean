import DiceNotation.Text.Blank
import DiceNotation.Text.Quoted
import DiceNotation.Token

/-!
Reading a text as tokens. A text is first cut into words, which fails at the first character that
belongs to no word; only then do runs of digits become numbers, which fails at the first that is too
large. So a foreign character is reported even behind a number that is too large.
-/
namespace DiceNotation

inductive LexError where
  | unexpectedChar (position : Nat) (found : Char)
  | numberTooLarge (position : Nat)
  deriving DecidableEq, Repr

namespace LexError

def position : LexError → Nat
  | unexpectedChar position _ => position
  | numberTooLarge position => position

def message : LexError → String
  | unexpectedChar position found =>
    "unexpected character " ++ Text.quoteChar found ++ " at position " ++ toString position
  | numberTooLarge position => "number at position " ++ toString position ++ " is too large"

end LexError

/-- What stands between blanks: a longest run of digits, or a token of one character. -/
inductive Word where
  | digits (run : List Char)
  | mark (token : Token)
  deriving DecidableEq, Repr

namespace Word

/-- The words of a text that starts at byte `position`, each with its place. -/
def ofChars (position : Nat) : List Char → Except LexError (List (Nat × Word))
  | [] => .ok []
  | c :: cs =>
    if Text.isBlank c then ofChars (position + c.utf8Size) cs
    else if c.isDigit then
      let run := cs.takeWhile Char.isDigit
      ((position, .digits (c :: run)) :: ·) <$>
        ofChars (position + 1 + run.length) (cs.dropWhile Char.isDigit)
    else
      match Token.ofChar? c with
      | some token => ((position, .mark token) :: ·) <$> ofChars (position + 1) cs
      | none => .error (.unexpectedChar position c)
termination_by cs => cs.length
decreasing_by
  · simp
  · have := (List.dropWhile_sublist Char.isDigit (l := cs)).length_le
    simp only [List.length_cons]
    omega
  · simp

/-- The token of a word. Leading zeros do not count towards the size of a number. -/
def token (position : Nat) : Word → Except LexError Placed
  | digits run =>
    match Value.ofInt? (Nat.ofDigitChars 10 run 0) with
    | some value => .ok ⟨.number value, position⟩
    | none => .error (.numberTooLarge position)
  | mark token => .ok ⟨token, position⟩

end Word

/-- The tokens of a text in order, and after them `Token.stop` at the end of the text. -/
def tokenize (text : String) : Except LexError (List Placed) := do
  let words ← Word.ofChars 0 text.toList
  let tokens ← words.mapM fun word => word.2.token word.1
  return tokens ++ [⟨.stop, text.utf8ByteSize⟩]

end DiceNotation
