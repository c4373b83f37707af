import RegexDialects.Pattern.Pcre.Bracket
import RegexDialects.Pattern.Pcre.Flags

/-!
# Escapes of PCRE

What a backslash means outside of brackets. Most escapes are a piece of the pattern; `\Q` starts a
quotation, and a `\E` that ends none means nothing by itself. Runs of digits are the hard case,
since their reading depends on how many groups there are (`digitEscape`).
-/

set_option autoImplicit false

namespace RegexDialects.Pattern.Pcre

/-- What is read at a time. -/
inductive Atom where
  | piece (e : Regex)
  /-- The text of a quotation. -/
  | quoted (text : List Char)
  /-- New flags for the rest of the group. -/
  | flags (f : Flags)
  /-- The end of a quotation that was not open. -/
  | nothing

/-- The assertion or class that an escape of one character stands for. -/
def escapedPrimitive? (c : Char) : Option Primitive :=
  match c with
  | 'A' => some .textStart
  | 'z' | 'Z' => some .textEnd
  | 'b' => some .wordBoundary
  | 'B' => some .notWordBoundary
  | 'w' => some .wordChar
  | 'W' => some .notWordChar
  | _ => none

/-- Reads a quotation up to its end mark `\E`, or to the end of the pattern. -/
def quotation : List Char → List Char × List Char
  | [] => ([], [])
  | '\\' :: 'E' :: rest => ([], rest)
  | c :: rest => (c :: (quotation rest).1, (quotation rest).2)

/-- Reads an escape of digits whose first one is `c`. All digits are a back reference if they are
    the number of a group that was opened. Else a first digit other than zero is one all by itself,
    and a zero starts an octal number. -/
def digitEscape (groups : Nat) (c : Char) (rest : List Char) : Regex × List Char :=
  -- Leading zeros count: after one group `\01` refers to it.
  let n := decimalValue (digitRun (c :: rest))
  if 0 < n ∧ n ≤ maxNumber ∧ n ≤ groups then (.backref n, afterDigits (c :: rest))
  else if c = '0' then (.literal [(octalChar (c :: rest)).1], (octalChar (c :: rest)).2)
  else (.backref (c.toNat - '0'.toNat), rest)

/-- Reads an escape, at the place behind the backslash. -/
def escape (groups : Nat) (text : List Char) : Reading Atom :=
  let whole := '\\' :: text
  match text with
  | [] => .error ⟨.unexpectedEnd, whole, []⟩
  | c :: rest =>
    if c.isDigit then .ok (.piece (digitEscape groups c rest).1, (digitEscape groups c rest).2)
    else
      match escapedPrimitive? c with
      | some p => .ok (.piece (.primitive p), rest)
      | none =>
        if c = 'Q' then .ok (.quoted (quotation rest).1, (quotation rest).2)
        else if c = 'E' then .ok (.nothing, rest)
        else
          match shorthandClass? c with
          | some e => .ok (.piece e, rest)
          | none =>
            match escapedChar whole c rest with
            | .error f => .error f
            | .ok (d, rest) => .ok (.piece (.literal [d]), rest)

theorem quotation_suffix (text : List Char) : (quotation text).2 <:+ text := by
  fun_induction quotation text with
  | case1 => exact List.suffix_refl _
  | case2 rest => exact (List.suffix_cons _ _).trans (List.suffix_cons _ _)
  | case3 c rest _ ih => exact ih.trans (List.suffix_cons _ _)

theorem digitEscape_suffix (groups : Nat) (c : Char) (rest : List Char) :
    (digitEscape groups c rest).2 <:+ c :: rest := by
  simp only [digitEscape]
  split
  · exact afterDigits_suffix _
  · split
    · exact octalDigits_suffix _ _
    · exact List.suffix_cons _ _

theorem escape_suffix {groups : Nat} {text rest : List Char} {a : Atom}
    (h : escape groups text = .ok (a, rest)) : rest <:+ text := by
  simp only [escape] at h
  split at h
  · simp at h
  · split at h
    · cases h
      exact digitEscape_suffix _ _ _
    · split at h
      · cases h
        exact List.suffix_cons _ _
      · split at h
        · cases h
          exact (quotation_suffix _).trans (List.suffix_cons _ _)
        · split at h
          · cases h
            exact List.suffix_cons _ _
          · split at h
            · cases h
              exact List.suffix_cons _ _
            · split at h
              · simp at h
              · next he =>
                cases h
                exact (escapedChar_suffix he).trans (List.suffix_cons _ _)

end RegexDialects.Pattern.Pcre
