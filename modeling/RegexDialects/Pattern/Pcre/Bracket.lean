import RegexDialects.Pattern.Bracket
import RegexDialects.Pattern.Pcre.CharEscape

/-!
# Bracket expressions of PCRE

Inside brackets a backslash starts an escape: for a class, or for one character, which may be the
end of a range.
-/

set_option autoImplicit false

namespace RegexDialects.Pattern.Pcre

/-- The class that an escape stands for, inside and outside of brackets; a capital letter means its
    complement. -/
def shorthandClass? (c : Char) : Option Regex :=
  match c with
  | 'd' => some (.set (.of (.posix .digit)))
  | 's' => some (.set (.of (.posix .space)))
  | 'h' => some (.set (.of (.posix .blank)))
  | 'D' => some (.complement (.set (.of (.posix .digit))))
  | 'S' => some (.complement (.set (.of (.posix .space))))
  | 'H' => some (.complement (.set (.of (.posix .blank))))
  | _ => none

/-- The class that an escape stands for inside brackets only. -/
def bracketClass? (c : Char) : Option Regex :=
  match c with
  | 'w' => some (.set (.of (.posix .word)))
  | 'W' => some (.complement (.set (.of (.posix .word))))
  | _ => shorthandClass? c

/-- Reads an escape inside brackets, at the place behind the backslash. -/
def bracketEscape (whole text : List Char) : Reading BracketAtom :=
  match text with
  | [] => .error ⟨.unmatchedBracket, whole, []⟩
  | c :: rest =>
    match bracketClass? c with
    | some e => .ok (.tree e, rest)
    | none =>
      if c = 'b' then .ok (.char '\x08', rest)
      else if (octalDigit? c).isSome then
        .ok (.char (octalChar text).1, (octalChar text).2)
      else if c = '8' ∨ c = '9' then .ok (.char c, rest)
      else
        match escapedChar ('\\' :: text) c rest with
        | .error f => .error f
        | .ok (c, rest) => .ok (.char c, rest)

/-- Reads one item of a bracket expression. -/
def bracketAtom (whole : List Char) : List Char → Reading BracketAtom
  | [] => .error ⟨.unmatchedBracket, whole, []⟩
  | '\\' :: rest => bracketEscape whole rest
  | c :: rest => .ok (.char c, rest)

theorem bracketEscape_suffix {whole text rest : List Char} {a : BracketAtom}
    (h : bracketEscape whole text = .ok (a, rest)) : rest <:+ text := by
  unfold bracketEscape at h
  split at h
  · simp at h
  · split at h
    · cases h
      exact List.suffix_cons _ _
    · split at h
      · cases h
        exact List.suffix_cons _ _
      · split at h
        · cases h
          exact octalDigits_suffix _ _
        · split at h
          · cases h
            exact List.suffix_cons _ _
          · split at h
            · simp at h
            · next he =>
              cases h
              exact (escapedChar_suffix he).trans (List.suffix_cons _ _)

theorem bracketAtom_advances {whole text rest : List Char} {a : BracketAtom}
    (h : bracketAtom whole text = .ok (a, rest)) : Advances rest text := by
  unfold bracketAtom at h
  split at h
  · simp at h
  · exact .cons _ (bracketEscape_suffix h)
  · cases h
    exact .cons _ (List.suffix_refl _)

/-- The bracket expressions of this dialect. -/
def brackets : BracketGrammar where
  negatedNames := true
  atom := bracketAtom
  atom_advances := bracketAtom_advances

end RegexDialects.Pattern.Pcre
