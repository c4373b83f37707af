import RegexDialects.Proofs.Construction
import RegexDialects.Text.Numeral

/-!
# Trees that were built

`Built` is what a caller can put together without naming a constructor of `Regex`: any finite
composition of the functions of `Tree/Build.lean` and `Tree/SetAlgebra.lean`, on sets that were put
together by adjoining. Numbers in a tree have 32 bits.

Its one consequence is `Built.fit`, by an induction with one case for each function. Nothing else
about how a tree was built is ever needed.
-/

set_option autoImplicit false

namespace RegexDialects.Regex

/-- Whether the bounds of a repetition are numbers that fit. -/
def BoundsFit (least : Nat) (most : Option Nat) : Prop :=
  least ≤ maxNumber ∧ ∀ m ∈ most, m ≤ maxNumber

/-- A digit is a number that fits. -/
theorem digit_le_maxNumber {d : Nat} (h : d ≤ 9) : d ≤ maxNumber :=
  Nat.le_trans h (by decide)

/-- A tree that was put together by the functions that build trees. -/
inductive Built : Regex → Prop
  | text (t : List Char) : Built (.text t)
  | primitive (p : Primitive) : Built (.primitive p)
  | syntaxClass (k : SyntaxClass) : Built (.syntaxClass k)
  | category (k : Category) : Built (.category k)
  | set {s : CharSet} : s.Built → Built (.set s)
  | seq {l : List Regex} : (∀ e ∈ l, Built e) → Built (.seq l)
  | alt {l : List Regex} : (∀ e ∈ l, Built e) → Built (.alt l)
  | union {l : List Regex} : (∀ e ∈ l, Built e) → Built (.union l)
  | repeated {least : Nat} {most : Option Nat} {greedy : Bool} {e e' : Regex} :
      Built e → BoundsFit least most → repeated least most greedy e = .ok e' → Built e'
  | group {e : Regex} : Built e → Built (.group e)
  | reference {n : Nat} {e : Regex} : n ≤ maxNumber → reference n = .ok e → Built e
  | negate {e e' : Regex} : Built e → negate e = .ok e' → Built e'
  | intersect {l : List Regex} {e : Regex} : (∀ x ∈ l, Built x) → intersect l = .ok e → Built e

/-- What holds of the nodes of a built tree, beyond normal form. -/
def builtDemands : Demands where
  set := CharSet.Tidy
  bounds := BoundsFit
  part := fun _ => True

theorem closed_builtDemands : builtDemands.Closed where
  char := by
    intro c
    apply CharSet.tidy_of
    intro t h
    cases h
  union := by
    rintro s t (rfl | hs) ht
    · exact CharSet.tidy_empty.union ht
    · exact CharSet.Tidy.union hs ht
  exclusion := fun _ => trivial

/-- **Every function that builds trees keeps normal form**, whatever it is given. -/
theorem Built.fit {e : Regex} (h : Built e) : e.Fit builtDemands := by
  have hD := closed_builtDemands
  induction h with
  | text t => exact fit_text t
  | primitive p => exact fit_primitive
  | syntaxClass k => exact fit_syntaxClass
  | category k => exact fit_category
  | set hs => exact fit_set.2 hs.tidy
  | seq _ ih => exact fit_seq ih
  | alt _ ih => exact fit_alt hD ih (Or.inl CharSet.tidy_empty)
  | union _ ih => exact fit_union hD ih (Or.inl CharSet.tidy_empty)
  | repeated _ hb h ih => exact fit_repeated h ih hb
  | group _ ih => exact fit_group.2 ih
  | reference _ h => exact fit_reference h
  | negate _ h ih => exact fit_negate hD ih h
  | intersect _ h ih => exact fit_intersect hD CharSet.tidy_empty (fun _ _ => trivial) ih h

end RegexDialects.Regex
