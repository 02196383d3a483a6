/-!
The characters of the Default_Ignorable_Code_Point class: fillers, joiners, selectors and formats,
and the code points reserved for such. They show nothing unless a text is laid out by their rules.
-/
namespace DiceNotation.Text

namespace DefaultIgnorable

/-- First and last code points of the runs that make up the class, in ascending order. -/
def ranges : Array (Nat × Nat) := #[
    (0x00AD, 0x00AD), (0x034F, 0x034F), (0x061C, 0x061C), (0x115F, 0x1160), (0x17B4, 0x17B5),
    (0x180B, 0x180F), (0x200B, 0x200F), (0x202A, 0x202E), (0x2060, 0x206F), (0x3164, 0x3164),
    (0xFE00, 0xFE0F), (0xFEFF, 0xFEFF), (0xFFA0, 0xFFA0), (0xFFF0, 0xFFF8), (0x1BCA0, 0x1BCA3),
    (0x1D173, 0x1D17A), (0xE0000, 0xE0FFF)]

end DefaultIgnorable

/-- Whether a character is passed over where it is not understood. -/
def isDefaultIgnorable (c : Char) : Bool :=
  DefaultIgnorable.ranges.any fun r => r.1 ≤ c.toNat && c.toNat ≤ r.2

end DiceNotation.Text
