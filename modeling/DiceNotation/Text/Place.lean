/-!
Lines and columns of a text, both counted from one in characters. A line ends at a vertical
separator, and carriage return with line feed are one separator. A separator at the very end of
the text starts no further line.
-/
namespace DiceNotation.Text

structure Place where
  line : Nat
  column : Nat
  deriving DecidableEq, Repr

namespace Place

def isLineEnd (c : Char) : Bool :=
  let n := c.toNat
  (0x0A ≤ n && n ≤ 0x0D) || n == 0x85 || n == 0x2028 || n == 0x2029

/-- Whether a line starts behind `c` when `rest` follows. -/
def startsLine (c : Char) (rest : List Char) : Bool :=
  isLineEnd c && !rest.isEmpty && !(c == '\r' && rest.head? == some '\n')

/-- The place `index` characters further on. -/
def advance (p : Place) : List Char → Nat → Place
  | [], _ | _, 0 => p
  | c :: rest, index + 1 =>
    if startsLine c rest then advance ⟨p.line + 1, 1⟩ rest index
    else advance ⟨p.line, p.column + 1⟩ rest index

/-- The place of the character with the given number, counted from zero, or of the end. -/
def ofIndex? (text : List Char) (index : Nat) : Option Place :=
  if index ≤ text.length then some (advance ⟨1, 1⟩ text index) else none

end Place

/-- The character at a byte of a text. -/
def charAtByte? : List Char → Nat → Option Char
  | [], _ => none
  | c :: _, 0 => some c
  | c :: rest, position + 1 =>
    if c.utf8Size ≤ position + 1 then charAtByte? rest (position + 1 - c.utf8Size) else none

end DiceNotation.Text
