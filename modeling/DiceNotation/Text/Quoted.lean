import DiceNotation.Text.DefaultIgnorable
import DiceNotation.Text.GraphemeExtend
import DiceNotation.Text.Unprintable

/-!
Quoted forms of characters, texts and bytes, for messages that must show exactly what was read.
The usual control characters have short escapes, other characters without a shape of their own
are written by code point, and bytes that are part of no character are written by value.
-/
namespace DiceNotation.Text

def hex (n : Nat) : String := String.ofList (Nat.toDigits 16 n)

/-- The halfwidth sound marks, which follow a character but fill a cell of their own. -/
def isSoundMark (c : Char) : Bool := c = '\uFF9E' || c = '\uFF9F'

/-- Whether a character cannot be seen as itself: it has no shape, or its shape falls onto the
character before it. -/
def isObscure (c : Char) : Bool :=
  isUnprintable c || isDefaultIgnorable c || (extendsGrapheme c && !isSoundMark c)

/-- One character inside quotes; `quotes` are the quotation marks that need a backslash there. -/
def escape (quotes : List Char) (c : Char) : String :=
  if c = '\x00' then "\\0"
  else if c = '\t' then "\\t"
  else if c = '\r' then "\\r"
  else if c = '\n' then "\\n"
  else if c = '\\' || quotes.contains c then String.ofList ['\\', c]
  else if isObscure c then "\\u\x7b" ++ hex c.toNat ++ "\x7d"
  else String.singleton c

def quoteChar (c : Char) : String := "'" ++ escape ['\x27'] c ++ "'"

def quote (text : String) : String :=
  "\"" ++ String.join (text.toList.map (escape ['"'])) ++ "\""

/-- A byte as two upper-case hexadecimal digits. -/
def escapeByte (b : UInt8) : String :=
  let digits := (Nat.toDigits 16 b.toNat).map Char.toUpper
  "\\x" ++ String.ofList (if digits.length < 2 then '0' :: digits else digits)

/-- The escaped text from byte `i` on: whole characters where they are well formed, and single
bytes elsewhere. -/
def escapeBytesFrom (bytes : ByteArray) (i : Nat) : List String :=
  if h : i < bytes.size then
    match bytes.utf8DecodeChar? i with
    | some c => escape ['"'] c :: escapeBytesFrom bytes (i + c.utf8Size)
    | none => escapeByte bytes[i] :: escapeBytesFrom bytes (i + 1)
  else []
termination_by bytes.size - i
decreasing_by
  · have := c.utf8Size_pos
    omega
  · omega

def quoteBytes (bytes : ByteArray) : String :=
  "\"" ++ String.join (escapeBytesFrom bytes 0) ++ "\""

end DiceNotation.Text
