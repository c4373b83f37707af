import RegexDialects.Text.CodePoint

/-!
# Blank, control and non-graphic characters

White space in the sense of Unicode's `White_Space`, the control characters, and the class built
from the two: the characters that no output form shows as themselves.
-/

set_option autoImplicit false

namespace RegexDialects

/-- The code points with the Unicode property `White_Space`. -/
def blankIntervals : List (Nat × Nat) :=
  [(0x9, 0xD), (0x20, 0x20), (0x85, 0x85), (0xA0, 0xA0), (0x1680, 0x1680), (0x2000, 0x200A),
   (0x2028, 0x2029), (0x202F, 0x202F), (0x205F, 0x205F), (0x3000, 0x3000)]

/-- White space, the characters that extended patterns skip. -/
def isBlank (c : Char) : Bool :=
  inIntervals blankIntervals c

/-- The control characters: general category `Cc`. -/
def isControl (c : Char) : Bool :=
  inIntervals [(0x0, 0x1F), (0x7F, 0x9F)] c

/-- Characters that are written as escapes: controls, and every blank but the space. -/
def isNonGraphic (c : Char) : Bool :=
  isControl c || (isBlank c && c != ' ')

end RegexDialects
