import RegexDialects.Pattern.Fault
import RegexDialects.Text.Numeral

/-!
# Escapes for one character

The escapes of PCRE that stand for a single character, which are the same inside and outside of
brackets: names such as `\t`, control characters, and octal and hexadecimal numbers.
-/

set_option autoImplicit false

namespace RegexDialects.Pattern.Pcre

/-- Reads up to `limit` octal digits: their values, and what follows. -/
def octalDigits : Nat → List Char → List Nat × List Char
  | limit + 1, c :: rest =>
    match octalDigit? c with
    | some d => (d :: (octalDigits limit rest).1, (octalDigits limit rest).2)
    | none => ([], c :: rest)
  | _, text => ([], text)

/-- Reads up to three octal digits as a character. -/
def octalChar (text : List Char) : Char × List Char :=
  (Char.ofNat (ofDigitValues 8 (octalDigits 3 text).1), (octalDigits 3 text).2)

/-- Reads up to `limit` hexadecimal digits: their values, and what follows. -/
def hexDigits : Nat → List Char → List Nat × List Char
  | limit + 1, c :: rest =>
    match hexDigit? c with
    | some d => (d :: (hexDigits limit rest).1, (hexDigits limit rest).2)
    | none => ([], c :: rest)
  | _, text => ([], text)

/-- Reads the hexadecimal digits up to a closing brace. -/
def bracedDigits (start : List Char) : List Char → Reading (List Nat)
  | [] => .error ⟨.badEscape, start, []⟩
  | c :: rest =>
    if c = '}' then .ok ([], rest)
    else
      match hexDigit? c with
      | none => .error ⟨.badEscape, start, rest⟩
      | some d =>
        match bracedDigits start rest with
        | .error f => .error f
        | .ok (ds, rest) => .ok (d :: ds, rest)

/-- Reads the digits behind `\x`: two at most, or any number in braces. No digits mean the character
    zero. -/
def hexChar (start text : List Char) : Reading Char :=
  match text with
  | '{' :: body =>
    match bracedDigits start body with
    | .error f => .error f
    | .ok (ds, rest) =>
      match charOfNat? (ofDigitValues 16 ds) with
      | some c => .ok (c, rest)
      | none => .error ⟨.badEscape, start, rest⟩
  | _ => .ok (Char.ofNat (ofDigitValues 16 (hexDigits 2 text).1), (hexDigits 2 text).2)

/-- Reads the character behind `\c`, and turns it into the control character of that name. -/
def controlChar (start : List Char) : List Char → Reading Char
  | [] => .error ⟨.badEscape, start, []⟩
  | c :: rest =>
    if c.toNat < 128 then .ok (Char.ofNat (c.toUpper.toNat ^^^ 0x40), rest)
    else .error ⟨.badEscape, start, rest⟩

/-- The character that an escape of one letter stands for. -/
def escapedChar? (c : Char) : Option Char :=
  match c with
  | 't' => some '\t'
  | 'n' => some '\n'
  | 'r' => some '\r'
  | 'f' => some '\x0c'
  | 'e' => some '\x1b'
  | 'a' => some '\x07'
  | _ => none

/-- Reads an escape for one character, at the place behind its first letter `c`. Letters and digits
    without a meaning are errors; anything else stands for itself. -/
def escapedChar (start : List Char) (c : Char) (rest : List Char) : Reading Char :=
  match escapedChar? c with
  | some d => .ok (d, rest)
  | none =>
    if c = 'x' then hexChar start rest
    else if c = 'c' then controlChar start rest
    else if c.isAlphanum then .error ⟨.badEscape, start, rest⟩
    else .ok (c, rest)

theorem octalDigits_suffix (limit : Nat) (text : List Char) :
    (octalDigits limit text).2 <:+ text := by
  induction limit generalizing text with
  | zero => exact List.suffix_refl _
  | succ limit ih =>
    cases text with
    | nil => exact List.suffix_refl _
    | cons c rest =>
      unfold octalDigits
      split
      · exact (ih rest).trans (List.suffix_cons _ _)
      · exact List.suffix_refl _

theorem hexDigits_suffix (limit : Nat) (text : List Char) : (hexDigits limit text).2 <:+ text := by
  induction limit generalizing text with
  | zero => exact List.suffix_refl _
  | succ limit ih =>
    cases text with
    | nil => exact List.suffix_refl _
    | cons c rest =>
      unfold hexDigits
      split
      · exact (ih rest).trans (List.suffix_cons _ _)
      · exact List.suffix_refl _

theorem bracedDigits_suffix {start text rest : List Char} {ds : List Nat}
    (h : bracedDigits start text = .ok (ds, rest)) : rest <:+ text := by
  induction text generalizing ds with
  | nil => simp [bracedDigits] at h
  | cons c text ih =>
    unfold bracedDigits at h
    split at h
    · cases h
      exact List.suffix_cons _ _
    · split at h
      · simp at h
      · split at h
        · simp at h
        · next hb =>
          cases h
          exact (ih hb).trans (List.suffix_cons _ _)

theorem hexChar_suffix {start text rest : List Char} {c : Char}
    (h : hexChar start text = .ok (c, rest)) : rest <:+ text := by
  unfold hexChar at h
  split at h
  · split at h
    · simp at h
    · next hb =>
      split at h
      · cases h
        exact (bracedDigits_suffix hb).trans (List.suffix_cons _ _)
      · simp at h
  · cases h
    exact hexDigits_suffix _ _

theorem controlChar_suffix {start text rest : List Char} {c : Char}
    (h : controlChar start text = .ok (c, rest)) : rest <:+ text := by
  unfold controlChar at h
  split at h
  · simp at h
  · split at h
    · cases h
      exact List.suffix_cons _ _
    · simp at h

theorem escapedChar_suffix {start text rest : List Char} {c d : Char}
    (h : escapedChar start c text = .ok (d, rest)) : rest <:+ text := by
  unfold escapedChar at h
  split at h
  · cases h
    exact List.suffix_refl _
  · split at h
    · exact hexChar_suffix h
    · split at h
      · exact controlChar_suffix h
      · split at h
        · simp at h
        · cases h
          exact List.suffix_refl _

end RegexDialects.Pattern.Pcre
