import RegexDialects.CharSet.Membership
import RegexDialects.Tree.SetAlgebra

/-!
# The characters that a tree matches

The meaning of trees that match single characters, over an arbitrary reading of all that is known by
name only (`Interpretation`). It is defined by recursion on the tree and says nothing about how
trees are built; `Tree/SetAlgebra.lean` can be held against it.
-/

set_option autoImplicit false

namespace RegexDialects

/-- Which characters belong to the named classes, and which make up words. -/
structure Interpretation where
  posix : PosixClass → Char → Prop
  wordChar : Char → Prop
  syntaxClass : SyntaxClass → Char → Prop
  category : Category → Char → Prop

namespace Regex

variable {I : Interpretation} {c : Char}

mutual

/-- Whether a tree matches the character `c`, as a matter of single characters. -/
def Denotes (I : Interpretation) : Regex → Char → Prop
  | .set s, c => s.Holds I.posix c
  | .complement e, c => ¬ Denotes I e c
  | .intersection l, c => DenotesAll I l c
  | .choice l, c => DenotesSome I l c
  | .syntaxClass k, c => I.syntaxClass k c
  | .category k, c => I.category k c
  | .primitive .wordChar, c => I.wordChar c
  | .primitive .notWordChar, c => ¬ I.wordChar c
  | .literal t, c => t = [c]
  | _, _ => False

/-- Whether all of a list match `c`. -/
def DenotesAll (I : Interpretation) : List Regex → Char → Prop
  | [], _ => True
  | e :: l, c => Denotes I e c ∧ DenotesAll I l c

/-- Whether one of a list matches `c`. -/
def DenotesSome (I : Interpretation) : List Regex → Char → Prop
  | [], _ => False
  | e :: l, c => Denotes I e c ∨ DenotesSome I l c

end

theorem denotesAll_iff {l : List Regex} : DenotesAll I l c ↔ ∀ e ∈ l, e.Denotes I c := by
  induction l with
  | nil => simp [DenotesAll]
  | cons e l ih => simp [DenotesAll, ih]

theorem denotesSome_iff {l : List Regex} : DenotesSome I l c ↔ ∃ e ∈ l, e.Denotes I c := by
  induction l with
  | nil => simp [DenotesSome]
  | cons e l ih => simp [DenotesSome, ih]

theorem not_denotes_fail : ¬ fail.Denotes I c := by
  simp [fail, Denotes, CharSet.not_holds_empty]

/-- A tree that is a plain set matches what the set holds. -/
theorem denotes_of_plainSet? {e : Regex} {s : CharSet} (h : e.plainSet? = some s) :
    e.Denotes I c ↔ s.Holds I.posix c := by
  unfold plainSet? at h
  split at h
  · cases h
    simp [Denotes]
  · cases h
    simp [Denotes, CharSet.holds_of, CharSet.Item.Holds, eq_comm]
  · simp at h

/-- The complement of a tree matches exactly the characters that the tree does not match. -/
theorem denotes_negate {e e' : Regex} (h : e.negate = .ok e') :
    e'.Denotes I c ↔ ¬ e.Denotes I c := by
  unfold negate at h
  split at h
  · cases h
    simp [Denotes]
  · cases h
    simp [Denotes]
  · cases h
    simp [Denotes]
  · cases h
    simp [Denotes]
  · cases h
    simp [Denotes]
  · cases h
    simp [Denotes]
  · cases h
    simp [Denotes, CharSet.holds_of, CharSet.Item.Holds, eq_comm]
  · simp at h

end Regex

end RegexDialects
