/-!
# Characters by code point

A character class of Unicode is stored here as a list of closed intervals of code points. The
classes that the library needs (letters and numbers, white space, marks, unassigned code points)
are such lists, and `inIntervals` is how each of them is asked about a character. The long lists
are checked to be in order (`ascending`).
-/

set_option autoImplicit false

namespace RegexDialects

/-- Whether the code point of `c` lies in one of the closed `intervals`. -/
def inIntervals (intervals : List (Nat × Nat)) (c : Char) : Bool :=
  intervals.any fun i => i.1 ≤ c.toNat && c.toNat ≤ i.2

theorem inIntervals_eq_true_iff {intervals : List (Nat × Nat)} {c : Char} :
    inIntervals intervals c = true ↔ ∃ i ∈ intervals, i.1 ≤ c.toNat ∧ c.toNat ≤ i.2 := by
  simp [inIntervals]

/-- Whether no interval is empty and each ends before the next begins, with a gap between. -/
def ascending : List (Nat × Nat) → Bool
  | [] => true
  | [i] => i.1 ≤ i.2
  | i :: j :: rest => i.1 ≤ i.2 && i.2 + 1 < j.1 && ascending (j :: rest)

end RegexDialects
