import RegexDialects.Text.Numeral
import RegexDialects.Tree.Basic

/-!
# The strings that a pattern matches

Listing the language of a tree, in the order in which a matcher would prefer the strings and with
every string as often as there are ways to match it. Assertions count as matching the empty string.

A list has limits: no more than `maxStrings` strings, of no more than `maxBytes` bytes together.
They are checked before a product or a union is made, on numbers, so that nothing too large is ever
built.
-/

set_option autoImplicit false

namespace RegexDialects

/-! ## Limits and refusals -/

/-- The greatest number of strings in a list. -/
def maxStrings : Nat := 1000000

/-- The greatest number of bytes that the strings of a list have together, in UTF-8: 64 MiB. -/
def maxBytes : Nat := 67108864

/-- A node whose language is not known, or too large to be of use. -/
inductive Unlisted where
  | primitive (p : Primitive)
  | backref
  | syntaxClass
  | category
  | complement
  | intersection
  deriving DecidableEq, Repr

/-- What a message calls such a node. -/
def Unlisted.description : Unlisted → String
  | primitive p => p.rx
  | backref => "a backreference"
  | syntaxClass => "a syntax class"
  | category => "a character category"
  | complement => "a negated class"
  | intersection => "an intersection"

/-- Why the strings of a tree are not listed. -/
inductive EnumerationError where
  /-- A repetition has no upper bound. -/
  | unbounded
  /-- The members of a named class are not known. -/
  | posixClass (k : PosixClass)
  | notEnumerable (what : Unlisted)
  /-- There are more than `maxStrings` strings. -/
  | tooMany
  /-- The strings have more than `maxBytes` bytes. -/
  | tooLarge
  deriving DecidableEq, Repr

/-- The wording of a refusal. -/
def EnumerationError.message : EnumerationError → String
  | unbounded => "pattern contains unbounded repetition; its language is infinite"
  | posixClass k => s!"character class [:{k.name}:] cannot be enumerated"
  | notEnumerable what => s!"{what.description} cannot be enumerated"
  | tooMany => s!"pattern matches more than {maxStrings} strings"
  | tooLarge => s!"strings matched by the pattern exceed {maxBytes} bytes in total"

namespace Enumeration

/-- The bytes that strings have together. -/
def totalBytes : List String → Nat
  | [] => 0
  | s :: l => s.utf8ByteSize + totalBytes l

/-- Refuses a number of strings beyond the limit. -/
def checkCount (n : Nat) : Except EnumerationError Unit :=
  if maxStrings < n then .error .tooMany else .ok ()

/-- Refuses a number of bytes beyond the limit. -/
def checkBytes (n : Nat) : Except EnumerationError Unit :=
  if maxBytes < n then .error .tooLarge else .ok ()

/-! ## Products and powers -/

/-- Every string of `left` before every string of `right`, the left one varying slowest. -/
def product (left right : List String) : Except EnumerationError (List String) := do
  checkCount (left.length * right.length)
  checkBytes (totalBytes left * right.length + totalBytes right * left.length)
  return left.flatMap fun s => right.map (s ++ ·)

/-- `start` followed by `n` strings of `body`. -/
def power (body : List String) : Nat → List String → Except EnumerationError (List String)
  | 0, start => .ok start
  | n + 1, start =>
    -- Nothing followed by anything is nothing, however often.
    if start.isEmpty then .ok []
    else do power body n (← product start body)

/-- The lists `last`, `last` followed by one string of `body`, and so on for `n` more strings, in
    front of `found` and the longest first. `count` and `bytes` say how much there is already. -/
def powersFrom (body : List String) :
    Nat → (last : List String) → (count bytes : Nat) → (found : List (List String)) →
      Except EnumerationError (List (List String))
  | 0, last, _, _, found => .ok (last :: found)
  | n + 1, last, count, bytes, found =>
    if last.isEmpty then .ok (last :: found)
    else do
      let next ← product last body
      checkCount (count + next.length)
      checkBytes (bytes + totalBytes next)
      powersFrom body n next (count + next.length) (bytes + totalBytes next) (last :: found)

/-- Between `least` and `most` strings of `body` in a row, fewer ones first. -/
def repetition (least most : Nat) (body : List String) :
    Except EnumerationError (List String) := do
  let first ← power body least [""]
  let found ← powersFrom body (most - least) first first.length (totalBytes first) []
  return found.reverse.flatten

/-! ## Sets -/

/-- The characters of a range in ascending order. Surrogate code points are no characters. -/
def rangeChars (r : Char × Char) : List Char :=
  (List.range' r.1.toNat (r.2.toNat + 1 - r.1.toNat)).filterMap charOfNat?

/-- How many code points a range is counted for: one at least. -/
def rangeSpan (r : Char × Char) : Nat :=
  r.2.toNat - r.1.toNat + 1

/-- How many code points ranges are counted for together. -/
def totalSpan : List (Char × Char) → Nat
  | [] => 0
  | r :: l => rangeSpan r + totalSpan l

/-- The characters of a set, the explicit ones first. -/
def charSet (s : CharSet) : Except EnumerationError (List String) :=
  match s.classes with
  | k :: _ => .error (.posixClass k)
  | [] => do
    checkCount (s.chars.length + totalSpan s.ranges)
    return (s.chars ++ s.ranges.flatMap rangeChars).map String.singleton

/-! ## Trees -/

mutual

/-- The strings that a tree matches. -/
def strings : Regex → Except EnumerationError (List String)
  | .empty => .ok [""]
  | .literal t => .ok [String.ofList t]
  | .primitive p => if p.isZeroWidth then .ok [""] else .error (.notEnumerable (.primitive p))
  | .sequence parts => sequenceFrom [""] parts
  | .choice branches => choiceFrom 0 0 branches
  | .repetition _ none _ _ => .error .unbounded
  | .repetition least (some most) _ body => do repetition least most (← strings body)
  | .group body => strings body
  | .set s => charSet s
  | .backref _ => .error (.notEnumerable .backref)
  | .syntaxClass _ => .error (.notEnumerable .syntaxClass)
  | .category _ => .error (.notEnumerable .category)
  | .complement _ => .error (.notEnumerable .complement)
  | .intersection _ => .error (.notEnumerable .intersection)

/-- A string of `start`, followed by one string of each part. Parts after one that matches nothing
    are looked at all the same: they may have to be refused. -/
def sequenceFrom (start : List String) : List Regex → Except EnumerationError (List String)
  | [] => .ok start
  | e :: l => do sequenceFrom (← product start (← strings e)) l

/-- The strings of each branch in turn, when `count` strings of `bytes` bytes are there already. -/
def choiceFrom (count bytes : Nat) : List Regex → Except EnumerationError (List String)
  | [] => .ok []
  | e :: l => do
    let found ← strings e
    checkCount (count + found.length)
    checkBytes (bytes + totalBytes found)
    return found ++ (← choiceFrom (count + found.length) (bytes + totalBytes found) l)

end

end Enumeration

/-- The strings that a tree matches, in the order of preference. -/
def Regex.enumerate (e : Regex) : Except EnumerationError (List String) :=
  Enumeration.strings e

end RegexDialects
