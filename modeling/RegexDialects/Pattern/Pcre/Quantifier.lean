import RegexDialects.Pattern.Pcre.Flags
import RegexDialects.Pattern.Quantifier

/-!
# Quantifiers of PCRE

`*`, `+`, `?` and bounds in braces. A `?` behind a quantifier makes it lazy; a `+` would make it
possessive, which no tree can say.
-/

set_option autoImplicit false

namespace RegexDialects.Pattern.Pcre

/-- Completes a quantifier with its mark. A `+` for a mark would make it possessive. -/
def marked (start : List Char) (least : Nat) (most : Option Nat) (text : List Char) :
    Except Fault (Option (Quantifier × List Char)) :=
  match greedyMark text with
  | (true, '+' :: rest) => .error ⟨.unsupportedGroup, start, '+' :: rest⟩
  | (greedy, rest) => .ok (some (⟨least, most, greedy⟩, rest))

/-- Reads one quantifier, if there is one. Braces of another shape, or without any number, are
    ordinary text. -/
def readQuantifier? (text : List Char) : Except Fault (Option (Quantifier × List Char)) :=
  match text with
  | '{' :: body =>
    match Bounds.read? ['}'] text body with
    | .error f => .error f
    | .ok none => .ok none
    | .ok (some (b, rest)) =>
      if b.least?.isNone ∧ b.most?.isNone then .ok none else marked text b.least b.most rest
  | c :: rest =>
    match operatorBounds? c with
    | some (least, most) => marked text least most rest
    | none => .ok none
  | [] => .ok none

theorem marked_suffix {start text rest : List Char} {least : Nat} {most : Option Nat}
    {q : Quantifier} (h : marked start least most text = .ok (some (q, rest))) :
    rest <:+ text := by
  unfold marked at h
  have s := greedyMark_suffix text
  split at h
  · simp at h
  · next hm =>
    cases h
    rw [hm] at s
    exact s

theorem readQuantifier?_suffix {text rest : List Char} {q : Quantifier}
    (h : readQuantifier? text = .ok (some (q, rest))) : rest <:+ text := by
  unfold readQuantifier? at h
  split at h
  · split at h
    · simp at h
    · simp at h
    · next hb =>
      split at h
      · simp at h
      · exact (marked_suffix h).trans ((Bounds.read?_suffix hb).trans (List.suffix_cons _ _))
  · split at h
    · exact (marked_suffix h).trans (List.suffix_cons _ _)
    · simp at h
  · simp at h

/-- The quantifiers of this dialect. -/
def quantifiers (flags : Flags) : QuantifierGrammar where
  skip := skip flags
  read? := readQuantifier?
  skip_suffix := skip_suffix flags
  read?_suffix := readQuantifier?_suffix

end RegexDialects.Pattern.Pcre
