/-!
# Character categories

The categories that Emacs sorts characters into, asked for in a pattern by the code character after
`\c`. Which characters belong to a category is a matter of the editor; here a category is a code
and a name.
-/

set_option autoImplicit false

namespace RegexDialects

/-- A category of characters. -/
inductive Category where
  | spaceForIndent
  | base
  | consonant
  | baseVowel
  | upperDiacriticalMark
  | lowerDiacriticalMark
  | toneMark
  | symbol
  | digit
  | vowelModifyingDiacriticalMark
  | vowelSign
  | semivowelLower
  | notAtEndOfLine
  | notAtBeginningOfLine
  | alphaNumericTwoByte
  | chineseTwoByte
  | greekTwoByte
  | japaneseHiraganaTwoByte
  | indianTwoByte
  | japaneseKatakanaTwoByte
  | strongLeftToRight
  | koreanHangulTwoByte
  | strongRightToLeft
  | cyrillicTwoByte
  | combiningDiacritic
  | ascii
  | arabic
  | chinese
  | ethiopic
  | greek
  | korean
  | indian
  | japanese
  | japaneseKatakana
  | latin
  | lao
  | tibetan
  | japaneseRoman
  | thai
  | vietnamese
  | hebrew
  | cyrillic
  | canBreak
  deriving DecidableEq, Repr, Inhabited

namespace Category

/-- Every category, in the order of their codes. -/
def all : List Category :=
  [.spaceForIndent, .base, .consonant, .baseVowel, .upperDiacriticalMark, .lowerDiacriticalMark,
   .toneMark, .symbol, .digit, .vowelModifyingDiacriticalMark, .vowelSign, .semivowelLower,
   .notAtEndOfLine, .notAtBeginningOfLine, .alphaNumericTwoByte, .chineseTwoByte, .greekTwoByte,
   .japaneseHiraganaTwoByte, .indianTwoByte, .japaneseKatakanaTwoByte, .strongLeftToRight,
   .koreanHangulTwoByte, .strongRightToLeft, .cyrillicTwoByte, .combiningDiacritic, .ascii,
   .arabic, .chinese, .ethiopic, .greek, .korean, .indian, .japanese, .japaneseKatakana, .latin,
   .lao, .tibetan, .japaneseRoman, .thai, .vietnamese, .hebrew, .cyrillic, .canBreak]

/-- The character that selects a category. -/
def code : Category → Char
  | spaceForIndent => ' '
  | base => '.'
  | consonant => '0'
  | baseVowel => '1'
  | upperDiacriticalMark => '2'
  | lowerDiacriticalMark => '3'
  | toneMark => '4'
  | symbol => '5'
  | digit => '6'
  | vowelModifyingDiacriticalMark => '7'
  | vowelSign => '8'
  | semivowelLower => '9'
  | notAtEndOfLine => '<'
  | notAtBeginningOfLine => '>'
  | alphaNumericTwoByte => 'A'
  | chineseTwoByte => 'C'
  | greekTwoByte => 'G'
  | japaneseHiraganaTwoByte => 'H'
  | indianTwoByte => 'I'
  | japaneseKatakanaTwoByte => 'K'
  | strongLeftToRight => 'L'
  | koreanHangulTwoByte => 'N'
  | strongRightToLeft => 'R'
  | cyrillicTwoByte => 'Y'
  | combiningDiacritic => '^'
  | ascii => 'a'
  | arabic => 'b'
  | chinese => 'c'
  | ethiopic => 'e'
  | greek => 'g'
  | korean => 'h'
  | indian => 'i'
  | japanese => 'j'
  | japaneseKatakana => 'k'
  | latin => 'l'
  | lao => 'o'
  | tibetan => 'q'
  | japaneseRoman => 'r'
  | thai => 't'
  | vietnamese => 'v'
  | hebrew => 'w'
  | cyrillic => 'y'
  | canBreak => '|'

/-- The name of a category in the `rx` form. -/
def name : Category → String
  | spaceForIndent => "space-for-indent"
  | base => "base"
  | consonant => "consonant"
  | baseVowel => "base-vowel"
  | upperDiacriticalMark => "upper-diacritical-mark"
  | lowerDiacriticalMark => "lower-diacritical-mark"
  | toneMark => "tone-mark"
  | symbol => "symbol"
  | digit => "digit"
  | vowelModifyingDiacriticalMark => "vowel-modifying-diacritical-mark"
  | vowelSign => "vowel-sign"
  | semivowelLower => "semivowel-lower"
  | notAtEndOfLine => "not-at-end-of-line"
  | notAtBeginningOfLine => "not-at-beginning-of-line"
  | alphaNumericTwoByte => "alpha-numeric-two-byte"
  | chineseTwoByte => "chinese-two-byte"
  | greekTwoByte => "greek-two-byte"
  | japaneseHiraganaTwoByte => "japanese-hiragana-two-byte"
  | indianTwoByte => "indian-two-byte"
  | japaneseKatakanaTwoByte => "japanese-katakana-two-byte"
  | strongLeftToRight => "strong-left-to-right"
  | koreanHangulTwoByte => "korean-hangul-two-byte"
  | strongRightToLeft => "strong-right-to-left"
  | cyrillicTwoByte => "cyrillic-two-byte"
  | combiningDiacritic => "combining-diacritic"
  | ascii => "ascii"
  | arabic => "arabic"
  | chinese => "chinese"
  | ethiopic => "ethiopic"
  | greek => "greek"
  | korean => "korean"
  | indian => "indian"
  | japanese => "japanese"
  | japaneseKatakana => "japanese-katakana"
  | latin => "latin"
  | lao => "lao"
  | tibetan => "tibetan"
  | japaneseRoman => "japanese-roman"
  | thai => "thai"
  | vietnamese => "vietnamese"
  | hebrew => "hebrew"
  | cyrillic => "cyrillic"
  | canBreak => "can-break"

/-- The category selected by a code character. -/
def ofCode? (c : Char) : Option Category :=
  all.find? (·.code == c)

theorem mem_all (k : Category) : k ∈ all := by
  cases k <;> decide

end Category

end RegexDialects
