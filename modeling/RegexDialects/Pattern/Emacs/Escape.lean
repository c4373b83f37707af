import RegexDialects.CharSet.Category
import RegexDialects.CharSet.SyntaxClass
import RegexDialects.Pattern.Fault

/-!
# Escapes of Emacs

What a backslash means in front of a character that is no operator: assertions, classes of the
syntax table, categories and back references. A character without a meaning stands for itself.
-/

set_option autoImplicit false

namespace RegexDialects.Pattern.Emacs

/-- The assertion or class that an escape of one character stands for. -/
def escapedPrimitive? (c : Char) : Option Primitive :=
  match c with
  | '\x60' => some .textStart
  | '\x27' => some .textEnd
  | '=' => some .point
  | 'b' => some .wordBoundary
  | 'B' => some .notWordBoundary
  | '<' => some .wordStart
  | '>' => some .wordEnd
  | 'w' => some .wordChar
  | 'W' => some .notWordChar
  | _ => none

/-- `e`, or its complement. -/
def signed (negated : Bool) (e : Regex) : Regex :=
  if negated then .complement e else e

/-- Reads the side of a symbol that `\_` is followed by. -/
def symbolEdge (whole : List Char) : List Char → Reading Regex
  | '<' :: rest => .ok (.primitive .symbolStart, rest)
  | '>' :: rest => .ok (.primitive .symbolEnd, rest)
  | text => .error ⟨.badEscape, whole, text.drop 1⟩

/-- Reads the code of a syntax class. -/
def syntaxCode (whole : List Char) (negated : Bool) : List Char → Reading Regex
  | [] => .error ⟨.unknownSyntaxClass, whole, []⟩
  | c :: rest =>
    match SyntaxClass.ofCode? c with
    | some k => .ok (signed negated (.syntaxClass k), rest)
    | none => .error ⟨.unknownSyntaxClass, whole, rest⟩

/-- Reads the code of a category. -/
def categoryCode (whole : List Char) (negated : Bool) : List Char → Reading Regex
  | [] => .error ⟨.unknownCategory, whole, []⟩
  | c :: rest =>
    match Category.ofCode? c with
    | some k => .ok (signed negated (.category k), rest)
    | none => .error ⟨.unknownCategory, whole, rest⟩

/-- Reads an escape that opens no group, at the place behind the backslash, where `groups` is the
    highest group number so far. A character without a meaning stands for itself. -/
def escape (groups : Nat) (text : List Char) : Reading Regex :=
  let whole := '\\' :: text
  match text with
  | [] => .error ⟨.unexpectedEnd, whole, []⟩
  | c :: rest =>
    match escapedPrimitive? c with
    | some p => .ok (.primitive p, rest)
    | none =>
      if c = '_' then symbolEdge whole rest
      else if c = 's' ∨ c = 'S' then syntaxCode whole (c == 'S') rest
      else if c = 'c' ∨ c = 'C' then categoryCode whole (c == 'C') rest
      else if c = '{' then .error ⟨.nothingToRepeat, whole, rest⟩
      else if '1' ≤ c ∧ c ≤ '9' then
        if groups < c.toNat - '0'.toNat then .error ⟨.undefinedBackref, whole, rest⟩
        else .ok (.backref (c.toNat - '0'.toNat), rest)
      else .ok (.literal [c], rest)

theorem symbolEdge_suffix {whole text rest : List Char} {e : Regex}
    (h : symbolEdge whole text = .ok (e, rest)) : rest <:+ text := by
  unfold symbolEdge at h
  split at h
  · cases h
    exact List.suffix_cons _ _
  · cases h
    exact List.suffix_cons _ _
  · simp at h

theorem syntaxCode_suffix {whole text rest : List Char} {negated : Bool} {e : Regex}
    (h : syntaxCode whole negated text = .ok (e, rest)) : rest <:+ text := by
  unfold syntaxCode at h
  split at h
  · simp at h
  · split at h
    · cases h
      exact List.suffix_cons _ _
    · simp at h

theorem categoryCode_suffix {whole text rest : List Char} {negated : Bool} {e : Regex}
    (h : categoryCode whole negated text = .ok (e, rest)) : rest <:+ text := by
  unfold categoryCode at h
  split at h
  · simp at h
  · split at h
    · cases h
      exact List.suffix_cons _ _
    · simp at h

theorem escape_advances {groups : Nat} {text rest : List Char} {e : Regex}
    (h : escape groups text = .ok (e, rest)) : Advances rest text := by
  simp only [escape] at h
  split at h
  · simp at h
  · next c mid =>
    refine .cons _ ?_
    split at h
    · cases h
      exact List.suffix_refl _
    · split at h
      · exact symbolEdge_suffix h
      · split at h
        · exact syntaxCode_suffix h
        · split at h
          · exact categoryCode_suffix h
          · split at h
            · simp at h
            · split at h
              · split at h
                · simp at h
                · cases h
                  exact List.suffix_refl _
              · cases h
                exact List.suffix_refl _

end RegexDialects.Pattern.Emacs
