import RegexDialects.Pattern.Fault
import RegexDialects.Text.Numeral

/-!
# Bounds in braces

The inside of a brace quantifier: a number, a comma, a number, any of which may be missing. What a
missing part means, and which may be missing, is for the dialect to say.

A text of another shape is no error here (`none`), with one exception: a number that does not fit is
an error even where the closing brace turns out to be missing, since it is seen first.
-/

set_option autoImplicit false

namespace RegexDialects.Pattern

/-- What stands in the braces of a quantifier. -/
structure Bounds where
  least? : Option Nat
  comma : Bool
  most? : Option Nat
  deriving DecidableEq, Repr

namespace Bounds

/-- Fewest copies: none, where no number is given. -/
def least (b : Bounds) : Nat :=
  b.least?.getD 0

/-- Most copies: a number without a comma is an exact count. -/
def most (b : Bounds) : Option Nat :=
  if b.comma then b.most? else some b.least

/-- Reads a number, if there is one. `start` is where the braces open. -/
def number? (start text : List Char) : Reading (Option Nat) :=
  if (digitRun text).isEmpty then .ok (none, text)
  else if maxNumber < decimalValue (digitRun text) then
    .error ⟨.badRepetition, start, afterDigits text⟩
  else .ok (some (decimalValue (digitRun text)), afterDigits text)

/-- Whether a comma is next, and what follows it. -/
def comma? : List Char → Bool × List Char
  | ',' :: rest => (true, rest)
  | text => (false, text)

/-- Reads the number behind a comma; without a comma there is none. -/
def upper? (start : List Char) : Bool × List Char → Reading (Option Nat)
  | (true, text) => number? start text
  | (false, text) => .ok (none, text)

/-- Reads bounds up to and including `closing`, at the place behind the opening brace. -/
def read? (closing start text : List Char) : Except Fault (Option (Bounds × List Char)) :=
  match number? start text with
  | .error f => .error f
  | .ok (least?, text) =>
    match upper? start (comma? text) with
    | .error f => .error f
    | .ok (most?, text') =>
      .ok ((closing.isPrefixOf? text').map fun rest => (⟨least?, (comma? text).1, most?⟩, rest))

theorem number?_suffix {start text rest : List Char} {n : Option Nat}
    (h : number? start text = .ok (n, rest)) : rest <:+ text := by
  unfold number? at h
  split at h
  · cases h
    exact List.suffix_refl _
  · split at h
    · simp at h
    · cases h
      exact afterDigits_suffix _

theorem comma?_suffix (text : List Char) : (comma? text).2 <:+ text := by
  unfold comma?
  split
  · exact List.suffix_cons _ _
  · exact List.suffix_refl _

theorem isPrefixOf?_suffix {l text rest : List Char} (h : l.isPrefixOf? text = some rest) :
    rest <:+ text := by
  induction l generalizing text with
  | nil =>
    cases h
    exact List.suffix_refl _
  | cons c l ih =>
    cases text with
    | nil => cases h
    | cons d text =>
      have h : (if c == d then l.isPrefixOf? text else none) = some rest := h
      split at h
      · exact (ih h).trans (List.suffix_cons _ _)
      · cases h

theorem upper?_suffix {start rest : List Char} {c : Bool × List Char} {n : Option Nat}
    (h : upper? start c = .ok (n, rest)) : rest <:+ c.2 := by
  unfold upper? at h
  split at h
  · exact number?_suffix h
  · cases h
    exact List.suffix_refl _

theorem read?_suffix {closing start text rest : List Char} {b : Bounds}
    (h : read? closing start text = .ok (some (b, rest))) : rest <:+ text := by
  unfold read? at h
  split at h
  · simp at h
  · next hl =>
    split at h
    · simp at h
    · next hu =>
      simp only [Except.ok.injEq, Option.map_eq_some_iff, Prod.mk.injEq] at h
      obtain ⟨_, hc, _, rfl⟩ := h
      exact (isPrefixOf?_suffix hc).trans
        ((upper?_suffix hu).trans ((comma?_suffix _).trans (number?_suffix hl)))

end Bounds

end RegexDialects.Pattern
