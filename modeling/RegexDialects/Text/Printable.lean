import RegexDialects.Text.Blank
import RegexDialects.Text.Mark
import RegexDialects.Text.Unassigned

/-!
# Printable characters

Which characters a message may show as themselves. A character is refused if a reader could not
tell from the message that it is there: controls, every blank but the space, code points without a
character, characters that have no shape, and marks, which would continue the quote in front of
them.
-/

set_option autoImplicit false

namespace RegexDialects

/-- Characters that have no shape: the general categories `Cf` (format) and `Co` (private use), and
the property `Default_Ignorable_Code_Point`, as of Unicode 17.0. The last one brings in the fillers
of Hangul, which are letters. -/
def shapelessIntervals : List (Nat × Nat) :=
  [(0xAD, 0xAD), (0x34F, 0x34F), (0x600, 0x605), (0x61C, 0x61C), (0x6DD, 0x6DD), (0x70F, 0x70F),
   (0x890, 0x891), (0x8E2, 0x8E2), (0x115F, 0x1160), (0x17B4, 0x17B5), (0x180B, 0x180F),
   (0x200B, 0x200F), (0x202A, 0x202E), (0x2060, 0x206F), (0x3164, 0x3164), (0xE000, 0xF8FF),
   (0xFE00, 0xFE0F), (0xFEFF, 0xFEFF), (0xFFA0, 0xFFA0), (0xFFF0, 0xFFFB), (0x110BD, 0x110BD),
   (0x110CD, 0x110CD), (0x13430, 0x1343F), (0x1BCA0, 0x1BCA3), (0x1D173, 0x1D17A),
   (0xE0000, 0xE0FFF), (0xF0000, 0xFFFFD), (0x100000, 0x10FFFD)]

theorem shapelessIntervals_ascending : ascending shapelessIntervals = true := by
  decide

/-- Characters that have no shape. -/
def isShapeless (c : Char) : Bool :=
  inIntervals shapelessIntervals c

/-- Characters that a message shows as themselves. -/
def isPrintable (c : Char) : Bool :=
  !(isNonGraphic c || isUnassigned c || isShapeless c || isMark c)

theorem isNonGraphic_eq_false_of_isPrintable {c : Char} (h : isPrintable c = true) :
    isNonGraphic c = false := by
  simp only [isPrintable, Bool.not_eq_true', Bool.or_eq_false_iff] at h
  exact h.1.1.1

end RegexDialects
