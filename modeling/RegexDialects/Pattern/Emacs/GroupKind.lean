import RegexDialects.Pattern.Fault
import RegexDialects.Text.Numeral

/-!
# Sorts of groups

A group of Emacs captures with the next number, captures with a number of its own, or captures
nothing. The reader keeps the highest number seen, since a back reference must not go beyond it.

Numbers have 32 bits, and a group may have the highest of them for its own. The next number is then
one too many, and reading breaks off where a group should get it (`Numbering.next?`).
-/

set_option autoImplicit false

namespace RegexDialects.Pattern.Emacs

/-- The sort of a group. -/
inductive GroupKind where
  /-- Captures, and gets the next number. -/
  | implicit
  /-- Captures, and has a number of its own. -/
  | numbered (n : Nat)
  /-- Captures nothing. -/
  | shy
  deriving DecidableEq, Repr

namespace GroupKind

/-- Reads the sort of a group, at the place behind `\(`. -/
def read (whole text : List Char) : Reading GroupKind :=
  match text with
  | '?' :: ':' :: rest => .ok (.shy, rest)
  | '?' :: text =>
    -- No digits read as zero, which numbers no group.
    let n := decimalValue (digitRun text)
    match afterDigits text with
    | ':' :: rest =>
      if 0 < n ∧ n ≤ maxNumber then .ok (.numbered n, rest)
      else .error ⟨.unsupportedGroup, whole, ':' :: rest⟩
    | rest => .error ⟨.unsupportedGroup, whole, rest⟩
  | _ => .ok (.implicit, text)

/-- The tree of a group. -/
def wrap (e : Regex) : GroupKind → Regex
  | implicit => .group e
  | numbered _ => .group e
  | shy => e

theorem read_suffix {whole text rest : List Char} {k : GroupKind}
    (h : read whole text = .ok (k, rest)) : rest <:+ text := by
  simp only [read] at h
  split at h
  · cases h
    exact (List.suffix_cons _ _).trans (List.suffix_cons _ _)
  · next body _ =>
    split at h
    · next hd =>
      split at h
      · cases h
        have s : ':' :: rest <:+ body := hd ▸ afterDigits_suffix body
        exact ((List.suffix_cons _ _).trans s).trans (List.suffix_cons _ _)
      · simp at h
    · simp at h
  · cases h
    exact List.suffix_refl _

end GroupKind

/-! ## Numbers -/

/-- The numbers that the groups so far have got. -/
structure Numbering where
  /-- The highest of them, or zero if there is none. -/
  highest : Nat
  /-- Whether a group has had a number of its own. -/
  explicit : Bool
  deriving DecidableEq, Repr

/-- Before the first group. -/
instance : OfNat Numbering 0 := ⟨⟨0, false⟩⟩

namespace Numbering

/-- Whether the next number would have more than 32 bits. Groups that only get the next number do
    not come that far: it would take a pattern of 16 GiB. They are just counted, as in PCRE. -/
def IsFull (g : Numbering) : Prop :=
  g.explicit = true ∧ maxNumber ≤ g.highest
deriving Decidable

/-- The numbers after one more group has opened, unless there is none left for it. -/
def next? (g : Numbering) : GroupKind → Option Numbering
  | .implicit => if g.IsFull then none else some { g with highest := g.highest + 1 }
  | .numbered n => some ⟨max g.highest n, true⟩
  | .shy => some g

theorem next?_eq_none_iff {g : Numbering} {kind : GroupKind} :
    g.next? kind = none ↔ kind = .implicit ∧ g.IsFull := by
  cases kind <;> simp [next?]

end Numbering

end RegexDialects.Pattern.Emacs
