import RegexDialects.Tree.Build

/-!
# Refused patterns

A reader works on the rest of a pattern: a list of characters, of which it takes some from the front
and gives back what is left. When it refuses, it says where the offending construct starts and how
far it had come, both as rests (`Fault`). Positions are counted only at the end, when the rests are
compared with the whole pattern (`Fault.report`).

`Advances` is what every reader does that succeeds on something: the new rest is a proper suffix of
the old one. All loops end because of it.
-/

set_option autoImplicit false

namespace RegexDialects.Pattern

/-- The deepest nesting of groups and repetitions that is read. -/
def maxDepth : Nat := 200

/-- Why a pattern is refused. -/
inductive ParseErrorKind where
  | unexpectedEnd
  | unmatchedParen
  | unmatchedBracket
  | unknownPosixClass
  /-- Braces that hold no bounds, or too large a number. -/
  | badRepetition
  | invertedRepetition
  | unknownModifier
  /-- A group, or a quantifier, of a sort that has no tree. -/
  | unsupportedGroup
  | collatingElement
  | unknownSyntaxClass
  | unknownCategory
  | badEscape
  | undefinedBackref
  | badRange
  | nothingToRepeat
  /-- Groups and repetitions nest deeper than `maxDepth`. -/
  | tooDeep
  /-- The next group would have a number of more than 32 bits. This is no answer to the pattern:
      the program breaks off. -/
  | overflow
  | construct (cause : ConstructError)
  deriving DecidableEq, Inhabited

/-- The wording of a cause. -/
def ParseErrorKind.message : ParseErrorKind → String
  | unexpectedEnd => "unexpected end of pattern"
  | unmatchedParen => "unmatched parenthesis"
  | unmatchedBracket => "unterminated character class"
  | unknownPosixClass => "unknown POSIX character class"
  | badRepetition => "malformed repetition braces"
  | invertedRepetition => "repetition bounds out of order"
  | unknownModifier => "unrecognized inline modifier"
  | unsupportedGroup => "unsupported group construct"
  | collatingElement => "collating elements are not supported"
  | unknownSyntaxClass => "unknown syntax class"
  | unknownCategory => "unknown character category"
  | badEscape => "unsupported escape sequence"
  | undefinedBackref => "backreference to a group that has not been opened"
  | badRange => "invalid character range"
  | nothingToRepeat => "quantifier does not follow a repeatable item"
  | tooDeep => s!"pattern nests deeper than {maxDepth} levels"
  | overflow => "attempt to add with overflow"
  | construct cause => cause.message

/-- A pattern that was refused. -/
structure ParseError where
  kind : ParseErrorKind
  /-- How many characters stand in front of the offending construct. -/
  position : Nat
  /-- The text of the construct, as far as it was read. -/
  fragment : List Char
  deriving DecidableEq, Inhabited

/-- The wording of an error. -/
def ParseError.message (e : ParseError) : String :=
  s!"{e.kind.message} at offset {e.position}: `{String.ofList e.fragment}`"

/-- A refusal inside a reader. -/
structure Fault where
  kind : ParseErrorKind
  /-- The rest of the pattern at the start of the offending construct. -/
  start : List Char
  /-- The rest of the pattern at the place where reading stopped. -/
  cursor : List Char
  deriving DecidableEq, Inhabited

/-- The error for a fault in `pattern`. The fragment has at least one character, unless the pattern
    ends before it. -/
def Fault.report (pattern : List Char) (f : Fault) : ParseError where
  kind := f.kind
  position := pattern.length - f.start.length
  fragment := f.start.take (max 1 (f.start.length - f.cursor.length))

/-- The outcome of reading: a value and the rest of the pattern. -/
abbrev Reading (α : Type) := Except Fault (α × List Char)

/-! ## Progress -/

/-- `rest` is what is left of `text` when something was taken from its front. -/
def Advances (rest text : List Char) : Prop :=
  rest <:+ text ∧ rest.length < text.length

theorem Advances.cons {rest text : List Char} (c : Char) (h : rest <:+ text) :
    Advances rest (c :: text) :=
  ⟨h.trans (List.suffix_cons c text), Nat.lt_succ_of_le h.length_le⟩

theorem Advances.of_suffix {rest mid text : List Char} (h : rest <:+ mid) (h' : Advances mid text) :
    Advances rest text :=
  ⟨h.trans h'.1, Nat.lt_of_le_of_lt h.length_le h'.2⟩

theorem Advances.suffix_of {rest mid text : List Char} (h : Advances rest mid) (h' : mid <:+ text) :
    Advances rest text :=
  ⟨h.1.trans h', Nat.lt_of_lt_of_le h.2 h'.length_le⟩

end RegexDialects.Pattern
