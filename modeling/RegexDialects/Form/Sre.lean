import RegexDialects.Form.ListForm
import RegexDialects.Form.Unwritable
import RegexDialects.Text.Numeral

/-!
# The SRE form

Writing a tree as a Scheme regular expression. Unlike `rx`, this notation has no lazy repetition and
no classes of the editor, but it does have intersections.
-/

set_option autoImplicit false

namespace RegexDialects.Form.Sre

/-- A character by its number. -/
def named (c : Char) : List Char :=
  '\\' :: 'x' :: hex c.toNat ++ [';']

/-- A string of Scheme. -/
def string (text : List Char) : List Char :=
  stringLiteral named text

/-- The names of classes. -/
def classNames : List PosixClass → Except Unwritable (List (List Char))
  | [] => .ok []
  | k :: l => do
    if k.inSre then return k.name.toList :: (← classNames l)
    else throw (.posixClass k)

/-- The parts a set is written in: its characters as one string in a list, all its ranges as one
    string of their ends, and each class by its name. -/
def setParts (s : CharSet) : Except Unwritable (List (List Char)) := do
  let classes ← classNames s.classes
  let chars := if s.chars.isEmpty then [] else ['(' :: string s.chars ++ [')']]
  let ranges :=
    if s.ranges.isEmpty then []
    else [listForm "/" [string (s.ranges.flatMap fun r => [r.1, r.2])]]
  return chars ++ ranges ++ classes

/-- A set: a character alone, else its parts, joined by `or` unless there is just one. -/
def charSet (s : CharSet) : Except Unwritable (List Char) :=
  match s.singleChar? with
  | some c => .ok (string [c])
  | none => do
    match ← setParts s with
    | [part] => return part
    | parts => return listForm "or" parts

/-- A repetition, which is always greedy here. -/
def repetition (least : Nat) (most : Option Nat) (body : List Char) : List Char :=
  match least, most with
  | 0, none => listForm "*" [body]
  | 1, none => listForm "+" [body]
  | 0, some 1 => listForm "?" [body]
  | n, none => listForm ">=" [decimal n, body]
  | n, some m =>
    if n = m then listForm "=" [decimal n, body]
    else listForm "**" [decimal n, decimal m, body]

mutual

/-- Writes a tree. -/
def render : Regex → Except Unwritable (List Char)
  | .empty => .ok (listForm ":" [])
  | .literal t => .ok (string t)
  | .primitive p =>
    match p.sre? with
    | some t => .ok t.toList
    | none => .error (.primitive p)
  | .sequence parts => do return listForm ":" (← renderAll parts)
  | .choice branches => do return listForm "or" (← renderAll branches)
  | .repetition least most greedy body =>
    if greedy then do return repetition least most (← render body)
    else .error .lazyRepeat
  | .group body => do return listForm "submatch" [← render body]
  | .backref n => .ok (listForm "backref" [decimal n])
  | .syntaxClass k => .error (.syntaxClass k)
  | .category k => .error (.category k)
  | .set s => charSet s
  | .complement e => do return listForm "~" [← render e]
  | .intersection parts => do return listForm "&" (← renderAll parts)

/-- Writes each of `l`. -/
def renderAll : List Regex → Except Unwritable (List (List Char))
  | [] => .ok []
  | e :: l => do return (← render e) :: (← renderAll l)

end

end RegexDialects.Form.Sre
