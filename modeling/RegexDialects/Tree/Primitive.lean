/-!
# Primitives

The fixed parts of a pattern: assertions about a position, and the few classes that have an operator
of their own. Each form of output has a table of spellings; only the `rx` form spells them all.
-/

set_option autoImplicit false

namespace RegexDialects

/-- An assertion or a built-in class. -/
inductive Primitive where
  /-- The start of the text. -/
  | textStart
  /-- The end of the text. -/
  | textEnd
  /-- The start of a line. -/
  | lineStart
  /-- The end of a line. -/
  | lineEnd
  /-- Any character. -/
  | anything
  /-- Any character but a newline. -/
  | notNewline
  /-- Either end of a word. -/
  | wordBoundary
  /-- A place that is neither end of a word. -/
  | notWordBoundary
  /-- A character of a word. -/
  | wordChar
  /-- A character of no word. -/
  | notWordChar
  /-- The start of a symbol. -/
  | symbolStart
  /-- The end of a symbol. -/
  | symbolEnd
  /-- The start of a word. -/
  | wordStart
  /-- The end of a word. -/
  | wordEnd
  /-- The position of the cursor in the editor. -/
  | point
  deriving DecidableEq, Repr, Inhabited

namespace Primitive

/-- Every primitive. -/
def all : List Primitive :=
  [.textStart, .textEnd, .lineStart, .lineEnd, .anything, .notNewline, .wordBoundary,
   .notWordBoundary, .wordChar, .notWordChar, .symbolStart, .symbolEnd, .wordStart, .wordEnd,
   .point]

/-- The `rx` symbol of a primitive. -/
def rx : Primitive → String
  | textStart => "bos"
  | textEnd => "eos"
  | lineStart => "bol"
  | lineEnd => "eol"
  | anything => "anything"
  | notNewline => "nonl"
  | wordBoundary => "word-boundary"
  | notWordBoundary => "not-word-boundary"
  | wordChar => "wordchar"
  | notWordChar => "not-wordchar"
  | symbolStart => "symbol-start"
  | symbolEnd => "symbol-end"
  | wordStart => "bow"
  | wordEnd => "eow"
  | point => "point"

/-- The PCRE spelling of a primitive, if PCRE has one. -/
def pcre? : Primitive → Option String
  | textStart => some "\\A"
  | textEnd => some "\\z"
  | lineStart => some "^"
  | lineEnd => some "$"
  | anything => some "(?s:.)"
  | notNewline => some "."
  | wordBoundary => some "\\b"
  | notWordBoundary => some "\\B"
  | wordChar => some "\\w"
  | notWordChar => some "\\W"
  | symbolStart | symbolEnd | wordStart | wordEnd | point => none

/-- The SRE spelling of a primitive, if SRE has one. -/
def sre? : Primitive → Option String
  | textStart => some "bos"
  | textEnd => some "eos"
  | lineStart => some "bol"
  | lineEnd => some "eol"
  | anything => some "any"
  | notNewline => some "nonl"
  | notWordBoundary => some "nwb"
  | wordChar => some "(or alnum (\"_\"))"
  | notWordChar => some "(~ alnum (\"_\"))"
  | wordStart => some "bow"
  | wordEnd => some "eow"
  | wordBoundary | symbolStart | symbolEnd | point => none

/-- Whether a primitive is an assertion, which matches without consuming a character. -/
def isZeroWidth : Primitive → Bool
  | anything | notNewline | wordChar | notWordChar => false
  | _ => true

/-- The primitive of an `rx` symbol. -/
def ofRx? (symbol : String) : Option Primitive :=
  all.find? (·.rx == symbol)

theorem mem_all (p : Primitive) : p ∈ all := by
  cases p <;> decide

theorem ofRx?_rx (p : Primitive) : ofRx? p.rx = some p := by
  cases p <;> decide

end Primitive

end RegexDialects
