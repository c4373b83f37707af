import RegexDialects.Pattern.Bracket

/-!
# Bracket expressions of Emacs

A bracket expression knows no escapes.
-/

set_option autoImplicit false

namespace RegexDialects.Pattern.Emacs

/-- Every character of a bracket expression stands for itself. -/
def bracketAtom (whole : List Char) : List Char → Reading BracketAtom
  | [] => .error ⟨.unmatchedBracket, whole, []⟩
  | c :: rest => .ok (.char c, rest)

theorem bracketAtom_advances {whole text rest : List Char} {a : BracketAtom}
    (h : bracketAtom whole text = .ok (a, rest)) : Advances rest text := by
  unfold bracketAtom at h
  split at h
  · simp at h
  · cases h
    exact .cons _ (List.suffix_refl _)

/-- The bracket expressions of this dialect. -/
def brackets : BracketGrammar where
  negatedNames := false
  atom := bracketAtom
  atom_advances := bracketAtom_advances

end RegexDialects.Pattern.Emacs
