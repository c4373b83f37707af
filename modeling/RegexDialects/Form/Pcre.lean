import RegexDialects.Form.Level
import RegexDialects.Form.Unwritable
import RegexDialects.Text.Blank
import RegexDialects.Text.Numeral

/-!
# The PCRE form

Writing a tree in the notation of PCRE. Three points need care.

* **Binding.** Pieces carry a `Level` and are grouped where they would bind too loosely; a
  repetition inside a repetition is always grouped, since two quantifiers in a row may mean one lazy
  or possessive quantifier.
* **Brackets.** A set, and a choice or an intersection made of sets and classes, is written as one
  bracket expression. `bracketItem` writes what one tree contributes to it, or what the complement
  of the tree contributes; an intersection is the complement of the union of complements.
* **Digits.** A back reference before a digit is grouped, so that the digit is not read as part of
  the number.
-/

set_option autoImplicit false

namespace RegexDialects.Form.Pcre

/-! ## Characters -/

/-- A character as a hexadecimal escape. -/
def hexEscape (c : Char) : List Char :=
  if c.toNat ≤ 0xFF then '\\' :: 'x' :: padZeros 2 (hex c.toNat)
  else ['\\', 'x', '{'] ++ hex c.toNat ++ ['}']

/-- The characters with a meaning of their own outside of brackets. -/
def isSpecial (c : Char) : Bool :=
  ['\\', '.', '^', '$', '|', '?', '*', '+', '(', ')', '[', ']', '{', '}'].contains c

/-- The characters with a meaning of their own inside brackets. -/
def isBracketSpecial (c : Char) : Bool :=
  ['\\', ']', '[', '^', '-'].contains c

/-- A character outside of brackets. -/
def escaped (c : Char) : List Char :=
  if isSpecial c then ['\\', c] else if isNonGraphic c then hexEscape c else [c]

/-- A character inside brackets. -/
def bracketEscaped (c : Char) : List Char :=
  if isBracketSpecial c then ['\\', c] else if isNonGraphic c then hexEscape c else [c]

/-! ## Classes -/

/-- The escape for a named class or its complement, if there is one. -/
def shorthand? (negated : Bool) : PosixClass → Option (List Char)
  | .digit => some ['\\', if negated then 'D' else 'd']
  | .space => some ['\\', if negated then 'S' else 's']
  | .word => some ['\\', if negated then 'W' else 'w']
  | _ => none

/-- The escape for a syntax class or its complement. -/
def syntaxEscape (negated : Bool) : SyntaxClass → Except Unwritable (List Char)
  | .word => .ok ['\\', if negated then 'W' else 'w']
  | .whitespace => .ok ['\\', if negated then 'S' else 's']
  | k => .error (.syntaxClass k)

/-- A named class inside brackets, with a sign in front of its name. -/
def classItem (sign : List Char) (k : PosixClass) : Except Unwritable (List Char) :=
  if k.inPcre then .ok ('[' :: ':' :: sign ++ k.name.toList ++ [':', ']'])
  else .error (.posixClass k)

/-- Named classes inside brackets. -/
def classItems : List PosixClass → Except Unwritable (List Char)
  | [] => .ok []
  | k :: l => do return (← classItem [] k) ++ (← classItems l)

/-- What stands between the brackets for a plain set. -/
def setItems (s : CharSet) : Except Unwritable (List Char) := do
  let classes ← classItems s.classes
  return s.chars.flatMap bracketEscaped ++
    s.ranges.flatMap (fun r => bracketEscaped r.1 ++ '-' :: bracketEscaped r.2) ++ classes

/-- What a tree, or its complement, contributes to a bracket expression; `none` if it has no form
    that can stand there. -/
def bracketItem (negated : Bool) : Regex → Option (Except Unwritable (List Char))
  | .complement e => bracketItem (!negated) e
  | .set s =>
    if negated then
      match s.singleClass? with
      | none => none
      | some k =>
        match shorthand? true k with
        | some t => some (.ok t)
        | none => some (classItem ['^'] k)
    else if s.isEmpty then none
    else some (setItems s)
  | .primitive .wordChar => some (.ok ['\\', if negated then 'W' else 'w'])
  | .primitive .notWordChar => some (.ok ['\\', if negated then 'w' else 'W'])
  | .syntaxClass k =>
    match syntaxEscape negated k with
    | .ok t => some (.ok t)
    | .error _ => none
  | .literal [c] => if negated then none else some (.ok (bracketEscaped c))
  | _ => none

/-- What all of `l`, or their complements, contribute to a bracket expression. The first tree that
    contributes nothing, or cannot be written, decides. -/
def bracketItems (negated : Bool) : List Regex → Option (Except Unwritable (List Char))
  | [] => some (.ok [])
  | e :: l =>
    match bracketItem negated e with
    | none => none
    | some (.error cause) => some (.error cause)
    | some (.ok t) => (bracketItems negated l).map fun rest => rest.map (t ++ ·)

/-- A bracket expression. -/
def bracket (items : List Char) : Rendered :=
  ⟨'[' :: items ++ [']'], .atom⟩

/-- The bracket expression for all but some items. -/
def negatedBracket (items : List Char) : Rendered :=
  bracket ('^' :: items)

/-- The items that all characters are in. -/
def everyChar : List Char := "\\x00-\\x\x7b10ffff\x7d".toList

/-- A plain set. -/
def renderSet (s : CharSet) : Except Unwritable Rendered :=
  if s.isEmpty then .ok (negatedBracket everyChar)
  else
    match s.singleChar? with
    | some c => .ok ⟨escaped c, .piece⟩
    | none =>
      match s.singleClass?.bind (shorthand? false) with
      | some t => .ok ⟨t, .piece⟩
      | none => (setItems s).map bracket

/-- The complement of a tree. -/
def renderComplement : Regex → Except Unwritable Rendered
  | .set s =>
    if s.isEmpty then .ok (bracket everyChar)
    else
      match s.singleClass?.bind (shorthand? true) with
      | some t => .ok ⟨t, .piece⟩
      | none => (setItems s).map negatedBracket
  | .syntaxClass k => (syntaxEscape true k).map (⟨·, .piece⟩)
  | .category k => .error (.category k)
  | _ => .error .negation

/-! ## Trees -/

/-- The quantifier for bounds. -/
def quantifier : Nat → Option Nat → List Char
  | 0, none => ['*']
  | 1, none => ['+']
  | 0, some 1 => ['?']
  | n, none => '{' :: decimal n ++ [',', '}']
  | n, some m =>
    if n = m then '{' :: decimal n ++ ['}']
    else '{' :: decimal n ++ ',' :: decimal m ++ ['}']

/-- Whether a text starts with a decimal digit. -/
def startsWithDigit : List Char → Bool
  | c :: _ => c.isDigit
  | [] => false

/-- Whether a tree is a back reference. -/
def isBackref : Regex → Bool
  | .backref _ => true
  | _ => false

/-- Whether a tree is a repetition. -/
def isRepetition : Regex → Bool
  | .repetition .. => true
  | _ => false

/-- Joins the texts of parts, each given with whether it is a back reference. -/
def joinParts : List (Bool × List Char) → List Char
  | [] => []
  | (_, t) :: [] => t
  | (isRef, t) :: (isRef', u) :: l =>
    -- `\1` before `2` would be read as `\12`.
    (if isRef && startsWithDigit u then shyGroup t else t) ++ joinParts ((isRef', u) :: l)

mutual

/-- Writes a tree. -/
def render : Regex → Except Unwritable Rendered
  | .empty => .ok ⟨[], .branch⟩
  | .literal t => .ok ⟨t.flatMap escaped, if t.length = 1 then .piece else .branch⟩
  | .primitive p =>
    match p.pcre? with
    | some t => .ok ⟨t.toList, if p = .anything then .atom else .piece⟩
    | none => .error (.primitive p)
  | .sequence parts => do
    let rendered ← renderAll parts
    let texts := rendered.map (·.atMost .branch)
    return ⟨joinParts ((parts.map isBackref).zip texts), .branch⟩
  | .choice branches =>
    match bracketItems false branches with
    | some items => items.map bracket
    | none => do
      let rendered ← renderAll branches
      return ⟨['|'].intercalate (rendered.map (·.atMost .branch)), .top⟩
  | .repetition least most greedy body => do
    let inner ← render body
    -- Two quantifiers in a row could be read as one.
    let text := if isRepetition body then shyGroup inner.text else inner.atMost .piece
    return ⟨text ++ quantifier least most ++ if greedy then [] else ['?'], .piece⟩
  | .group body => do return ⟨'(' :: (← render body).text ++ [')'], .atom⟩
  | .backref n => if 9 < n then .error (.backrefIndex n) else .ok ⟨'\\' :: decimal n, .piece⟩
  | .syntaxClass k => (syntaxEscape false k).map (⟨·, .piece⟩)
  | .category k => .error (.category k)
  | .set s => renderSet s
  | .complement e => renderComplement e
  | .intersection parts =>
    match bracketItems true parts with
    | some items => items.map negatedBracket
    | none => .error .intersection

/-- Writes each of `l`. -/
def renderAll : List Regex → Except Unwritable (List Rendered)
  | [] => .ok []
  | e :: l => do return (← render e) :: (← renderAll l)

end

end RegexDialects.Form.Pcre
