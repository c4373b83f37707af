import RegexDialects.Pattern.Quantifier

/-!
# Quantifiers of Emacs

`*`, `+`, `?`, and bounds in `\{` and `\}`. Only the first three can be lazy.
-/

set_option autoImplicit false

namespace RegexDialects.Pattern.Emacs

/-- Reads one quantifier, if there is one: `*`, `+` and `?`, lazy with another `?` behind, or bounds
    in braces. Braces of another shape are an error. -/
def readQuantifier? (text : List Char) : Except Fault (Option (Quantifier × List Char)) :=
  match text with
  | '\\' :: '{' :: body =>
    match Bounds.read? ['\\', '}'] text body with
    | .error f => .error f
    -- The fault lies with the brace alone: its contents were not taken.
    | .ok none => .error ⟨.badRepetition, text, text⟩
    | .ok (some (b, rest)) => .ok (some (⟨b.least, b.most, true⟩, rest))
  | c :: rest =>
    match operatorBounds? c with
    | some (least, most) =>
      .ok (some (⟨least, most, (greedyMark rest).1⟩, (greedyMark rest).2))
    | none => .ok none
  | [] => .ok none

theorem readQuantifier?_suffix {text rest : List Char} {q : Quantifier}
    (h : readQuantifier? text = .ok (some (q, rest))) : rest <:+ text := by
  unfold readQuantifier? at h
  split at h
  · split at h
    · simp at h
    · simp at h
    · next hb =>
      cases h
      exact (Bounds.read?_suffix hb).trans
        ((List.suffix_cons _ _).trans (List.suffix_cons _ _))
  · split at h
    · cases h
      exact (greedyMark_suffix _).trans (List.suffix_cons _ _)
    · simp at h
  · simp at h

/-- The quantifiers of this dialect. Nothing stands between two of them. -/
def quantifiers : QuantifierGrammar where
  skip := id
  read? := readQuantifier?
  skip_suffix := fun _ => List.suffix_refl _
  read?_suffix := readQuantifier?_suffix

end RegexDialects.Pattern.Emacs
