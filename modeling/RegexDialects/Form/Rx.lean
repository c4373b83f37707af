import RegexDialects.Form.ListForm
import RegexDialects.Form.Unwritable
import RegexDialects.Text.Numeral

/-!
# The `rx` form

Writing a tree as the list notation of Emacs Lisp. Lists are fully bracketed, so nothing has to be
grouped. Two things have no words: an intersection, and a lazy repetition with bounds other than
those of `*`, `+` and `?` — unless the count is exact, since then lazy and greedy are the same.
-/

set_option autoImplicit false

namespace RegexDialects.Form.Rx

/-- A character by its number. -/
def named (c : Char) : List Char :=
  "\\N\x7bU+".toList ++ padZeros 4 ((hex c.toNat).map Char.toUpper) ++ ['}']

/-- A string of Emacs Lisp. -/
def string (text : List Char) : List Char :=
  stringLiteral named text

/-- The characters that a character literal escapes. -/
def isLiteralSpecial (c : Char) : Bool :=
  ['(', ')', '[', ']', '\\', ';', '"', '\x27', '#', ',', '\x60', '.', '?'].contains c

/-- A character literal. -/
def charLiteral (c : Char) : List Char :=
  if c = ' ' then ['?', '\\', 's']
  else if c = '\n' then ['?', '\\', 'n']
  else if c = '\t' then ['?', '\\', 't']
  else if isLiteralSpecial c then ['?', '\\', c]
  else if isNonGraphic c then '?' :: named c
  else ['?', c]

/-- A range, as a dotted pair. -/
def range (r : Char × Char) : List Char :=
  '(' :: charLiteral r.1 ++ [' ', '.', ' '] ++ charLiteral r.2 ++ [')']

/-- A set: the name of a class that is alone, else the list of all members. -/
def charSet (s : CharSet) : List Char :=
  match s.singleClass? with
  | some k => k.name.toList
  | none =>
    listForm "any" (s.chars.map charLiteral ++ s.ranges.map range ++
      s.classes.map fun k => k.name.toList)

/-- A repetition that prefers more copies to fewer. -/
def greedyForm (least : Nat) (most : Option Nat) (body : List Char) : List Char :=
  match least, most with
  | 0, none => listForm "*" [body]
  | 1, none => listForm "+" [body]
  | 0, some 1 => listForm "opt" [body]
  | n, none => listForm ">=" [decimal n, body]
  | n, some m =>
    if n = m then listForm "=" [decimal n, body]
    else listForm "repeat" [decimal n, decimal m, body]

/-- A repetition that prefers fewer copies to more. -/
def lazyForm (least : Nat) (most : Option Nat) (body : List Char) :
    Except Unwritable (List Char) :=
  match least, most with
  | 0, none => .ok (listForm "*?" [body])
  | 1, none => .ok (listForm "+?" [body])
  | 0, some 1 => .ok (listForm "\\??" [body])
  -- An exact count is the same, lazy or greedy.
  | n, some m => if n = m then .ok (greedyForm n (some m) body) else .error .lazyRepeat
  | _, none => .error .lazyRepeat

mutual

/-- Writes a tree. -/
def render : Regex → Except Unwritable (List Char)
  | .empty => .ok (listForm "seq" [])
  | .literal t => .ok (string t)
  | .primitive p => .ok p.rx.toList
  | .sequence parts => do return listForm "seq" (← renderAll parts)
  | .choice branches => do return listForm "or" (← renderAll branches)
  | .repetition least most greedy body => do
    let text ← render body
    if greedy then return greedyForm least most text
    else lazyForm least most text
  | .group body => do return listForm "submatch" [← render body]
  | .backref n => .ok (listForm "backref" [decimal n])
  | .syntaxClass k => .ok (listForm "syntax" [k.name.toList])
  | .category k => .ok (listForm "category" [k.name.toList])
  | .set s =>
    if s.isEmpty then .ok (listForm "or" [])
    else
      match s.singleChar? with
      | some c => .ok (string [c])
      | none => .ok (charSet s)
  | .complement (.set s) =>
    if s.isEmpty then .ok "anything".toList else .ok (listForm "not" [charSet s])
  | .complement e => do return listForm "not" [← render e]
  | .intersection _ => .error .intersection

/-- Writes each of `l`. -/
def renderAll : List Regex → Except Unwritable (List (List Char))
  | [] => .ok []
  | e :: l => do return (← render e) :: (← renderAll l)

end

end RegexDialects.Form.Rx
