/-!
# How tightly a piece of text binds

PCRE is an infix notation: a text such as `a|b` must stand in a group before something is put next
to it. A written piece therefore carries the level at which it binds, and its surroundings say which
levels they take as they are.
-/

set_option autoImplicit false

namespace RegexDialects

/-- How a written piece binds, from the tightest to the loosest. -/
inductive Level where
  /-- In brackets of its own: a group, a class. -/
  | atom
  /-- Takes a quantifier as it is: a character, an escape, an assertion. -/
  | piece
  /-- A concatenation: needs a group before a quantifier. -/
  | branch
  /-- An alternation: needs a group inside a concatenation too. -/
  | top
  deriving DecidableEq, Repr, Inhabited

/-- The place of a level in the order from the tightest to the loosest. -/
def Level.rank : Level → Nat
  | atom => 0
  | piece => 1
  | branch => 2
  | top => 3

/-- A written piece with its level. -/
structure Rendered where
  text : List Char
  level : Level
  deriving DecidableEq, Repr, Inhabited

/-- `text` in a group that captures nothing. -/
def shyGroup (text : List Char) : List Char :=
  '(' :: '?' :: ':' :: text ++ [')']

/-- The text of a piece where the levels up to `limit` can stand as they are. -/
def Rendered.atMost (r : Rendered) (limit : Level) : List Char :=
  if limit.rank < r.level.rank then shyGroup r.text else r.text

end RegexDialects
