import RegexDialects.Text.Blank

/-!
# List notation

What the two Lisp forms have in common: lists in parentheses with a symbol in front, and strings in
double quotes. A string escapes its quote and the backslash, writes newline and tab as `\n` and
`\t`, and names every other character that is not graphic; the two forms differ in that name.
-/

set_option autoImplicit false

namespace RegexDialects.Form

/-- Items, each with a space in front. -/
def spaced (items : List (List Char)) : List Char :=
  items.flatMap (' ' :: ·)

/-- A list with a head symbol. -/
def listForm (head : String) (items : List (List Char)) : List Char :=
  '(' :: head.toList ++ spaced items ++ [')']

/-- A character inside a string. -/
def stringChar (named : Char → List Char) (c : Char) : List Char :=
  if c = '"' ∨ c = '\\' then ['\\', c]
  else if c = '\n' then ['\\', 'n']
  else if c = '\t' then ['\\', 't']
  else if isNonGraphic c then named c
  else [c]

/-- A string in double quotes. -/
def stringLiteral (named : Char → List Char) (text : List Char) : List Char :=
  '"' :: text.flatMap (stringChar named) ++ ['"']

end RegexDialects.Form
