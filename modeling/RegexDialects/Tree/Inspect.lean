import RegexDialects.Text.Numeral
import RegexDialects.Text.Printable
import RegexDialects.Tree.Basic

/-!
# Trees in constructor form

The text that an error message shows for a tree it complains about: the tree spelled out as nested
constructors, `Sequence([Literal("ab"), Backref(1)])`. Strings and characters stand in quotes and
escape their own quote, the backslash, and everything that is not printable.
-/

set_option autoImplicit false

namespace RegexDialects

/-! ## Leaves -/

/-- A name made of words as one word: each part gets a capital and the dashes go. -/
def capitalWords (name : String) : String :=
  String.ofList (go true name.toList)
where
  /-- Goes on inside the name; `first` says whether a word starts here. -/
  go (first : Bool) : List Char → List Char
    | [] => []
    | c :: r =>
      if c = '-' then go true r
      else (if first then c.toUpper else c) :: go false r

/-- A character between quotes of the sort `quote`. -/
def quotedChar (quote c : Char) : List Char :=
  if c = quote ∨ c = '\\' then ['\\', c]
  else if c = '\n' then ['\\', 'n']
  else if c = '\r' then ['\\', 'r']
  else if c = '\t' then ['\\', 't']
  else if c = '\x00' then ['\\', '0']
  else if isPrintable c then [c]
  else ['\\', 'u', '{'] ++ hex c.toNat ++ ['}']

/-- A text in double quotes. -/
def quotedText (text : List Char) : String :=
  String.ofList ('"' :: text.flatMap (quotedChar '"') ++ ['"'])

/-- A character in single quotes. -/
def quotedSingle (c : Char) : String :=
  String.ofList ('\x27' :: quotedChar '\x27' c ++ ['\x27'])

/-- Items in square brackets. -/
def bracketed (items : List String) : String :=
  "[" ++ ", ".intercalate items ++ "]"

/-- The constructor form of a set. -/
def CharSet.inspect (s : CharSet) : String :=
  "CharSet \x7b chars: " ++ bracketed (s.chars.map quotedSingle) ++
    ", ranges: " ++ bracketed (s.ranges.map fun r =>
      "(" ++ quotedSingle r.1 ++ ", " ++ quotedSingle r.2 ++ ")") ++
    ", classes: " ++ bracketed (s.classes.map fun k => capitalWords k.name) ++ " \x7d"

/-- A number that may be missing. -/
def inspectOption : Option Nat → String
  | none => "None"
  | some n => s!"Some({n})"

/-! ## Trees -/

namespace Regex

mutual

/-- The constructor form of a tree. -/
def inspect : Regex → String
  | .empty => "Epsilon"
  | .literal text => "Literal(" ++ quotedText text ++ ")"
  | .primitive p => "Primitive(" ++ capitalWords p.rx ++ ")"
  | .sequence parts => "Sequence(" ++ bracketed (inspectAll parts) ++ ")"
  | .choice branches => "Choice(" ++ bracketed (inspectAll branches) ++ ")"
  | .repetition least most greedy body =>
    s!"Repeat(Repeat \x7b from: {least}, to: " ++ inspectOption most ++
      s!", greedy: {greedy}, body: " ++ inspect body ++ " \x7d)"
  | .group body => "Submatch(" ++ inspect body ++ ")"
  | .backref n => s!"Backref({n})"
  | .syntaxClass k => "SyntaxClass(" ++ capitalWords k.name ++ ")"
  | .category k =>
    "CharCategory(CharCategory \x7b name: " ++ quotedText k.name.toList ++ " \x7d)"
  | .set s => "CharSet(" ++ s.inspect ++ ")"
  | .complement body => "Negation(" ++ inspect body ++ ")"
  | .intersection parts => "Intersection(" ++ bracketed (inspectAll parts) ++ ")"

/-- The constructor forms of a list of trees. -/
def inspectAll : List Regex → List String
  | [] => []
  | e :: l => inspect e :: inspectAll l

end

end Regex

end RegexDialects
