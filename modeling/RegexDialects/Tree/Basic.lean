import RegexDialects.CharSet.Basic
import RegexDialects.CharSet.Category
import RegexDialects.CharSet.SyntaxClass
import RegexDialects.Tree.Primitive

/-!
# The tree of a regular expression

`Regex` is what every reader produces and every writer consumes; it belongs to no dialect. The
constructors hold any tree at all. The functions of `Tree/Build.lean` and `Tree/SetAlgebra.lean`
build trees in normal form, and the readers use no others.

A node with many parts keeps them in a list, so functions on trees come in pairs: one on `Regex`,
one on `List Regex`.
-/

set_option autoImplicit false

namespace RegexDialects

/-- A regular expression. -/
inductive Regex where
  /-- Matches the empty text only. -/
  | empty
  /-- Matches one text only. -/
  | literal (text : List Char)
  | primitive (p : Primitive)
  /-- All parts, one after the other. -/
  | sequence (parts : List Regex)
  /-- One of the branches; an earlier one is preferred. -/
  | choice (branches : List Regex)
  /-- The body, at least `least` times and, unless `most` is missing, at most `most` times.
      A `greedy` repetition prefers more copies to fewer. -/
  | repetition (least : Nat) (most : Option Nat) (greedy : Bool) (body : Regex)
  /-- The body, and what it matched is remembered. -/
  | group (body : Regex)
  /-- What group `n` matched. -/
  | backref (n : Nat)
  | syntaxClass (k : SyntaxClass)
  | category (k : Category)
  /-- One character of a plain set. -/
  | set (s : CharSet)
  /-- One character that the body, itself a matter of one character, does not match. -/
  | complement (body : Regex)
  /-- One character that all parts match. -/
  | intersection (parts : List Regex)
  deriving Inhabited

namespace Regex

/-! ## Equality -/

mutual

/-- Whether two trees are the same. -/
def same : Regex → Regex → Bool
  | .empty, .empty => true
  | .literal t, .literal u => t == u
  | .primitive p, .primitive q => p == q
  | .sequence l, .sequence m => sameAll l m
  | .choice l, .choice m => sameAll l m
  | .repetition n m g e, .repetition n' m' g' e' => n == n' && m == m' && g == g' && same e e'
  | .group e, .group e' => same e e'
  | .backref n, .backref m => n == m
  | .syntaxClass k, .syntaxClass k' => k == k'
  | .category k, .category k' => k == k'
  | .set s, .set t => s == t
  | .complement e, .complement e' => same e e'
  | .intersection l, .intersection m => sameAll l m
  | _, _ => false

/-- Whether two lists of trees are the same. -/
def sameAll : List Regex → List Regex → Bool
  | [], [] => true
  | e :: l, e' :: m => same e e' && sameAll l m
  | _, _ => false

end

mutual

theorem same_refl : ∀ e : Regex, same e e = true
  | .empty => rfl
  | .literal _ => by simp [same]
  | .primitive _ => by simp [same]
  | .sequence l => by simpa [same] using sameAll_refl l
  | .choice l => by simpa [same] using sameAll_refl l
  | .repetition _ _ _ e => by simpa [same] using same_refl e
  | .group e => by simpa [same] using same_refl e
  | .backref _ => by simp [same]
  | .syntaxClass _ => by simp [same]
  | .category _ => by simp [same]
  | .set _ => by simp [same]
  | .complement e => by simpa [same] using same_refl e
  | .intersection l => by simpa [same] using sameAll_refl l

theorem sameAll_refl : ∀ l : List Regex, sameAll l l = true
  | [] => rfl
  | e :: l => by simp [sameAll, same_refl e, sameAll_refl l]

end

mutual

theorem eq_of_same : ∀ e f : Regex, same e f = true → e = f
  | .empty, f, h => by cases f <;> simp_all [same]
  | .literal _, f, h => by cases f <;> simp_all [same]
  | .primitive _, f, h => by cases f <;> simp_all [same]
  | .sequence l, f, h => by
    cases f <;> simp only [same, Bool.false_eq_true] at h
    rw [eq_of_sameAll l _ h]
  | .choice l, f, h => by
    cases f <;> simp only [same, Bool.false_eq_true] at h
    rw [eq_of_sameAll l _ h]
  | .repetition _ _ _ e, f, h => by
    cases f <;> simp only [same, Bool.false_eq_true, Bool.and_eq_true, beq_iff_eq] at h
    obtain ⟨⟨⟨rfl, rfl⟩, rfl⟩, h⟩ := h
    rw [eq_of_same e _ h]
  | .group e, f, h => by
    cases f <;> simp only [same, Bool.false_eq_true] at h
    rw [eq_of_same e _ h]
  | .backref _, f, h => by cases f <;> simp_all [same]
  | .syntaxClass _, f, h => by cases f <;> simp_all [same]
  | .category _, f, h => by cases f <;> simp_all [same]
  | .set _, f, h => by cases f <;> simp_all [same]
  | .complement e, f, h => by
    cases f <;> simp only [same, Bool.false_eq_true] at h
    rw [eq_of_same e _ h]
  | .intersection l, f, h => by
    cases f <;> simp only [same, Bool.false_eq_true] at h
    rw [eq_of_sameAll l _ h]

theorem eq_of_sameAll : ∀ l m : List Regex, sameAll l m = true → l = m
  | [], m, h => by cases m <;> simp_all [sameAll]
  | e :: l, m, h => by
    cases m <;> simp only [sameAll, Bool.false_eq_true, Bool.and_eq_true] at h
    rw [eq_of_same e _ h.1, eq_of_sameAll l _ h.2]

end

theorem same_eq_true_iff {e f : Regex} : same e f = true ↔ e = f :=
  ⟨eq_of_same e f, fun h => h ▸ same_refl e⟩

instance : DecidableEq Regex := fun _ _ => decidable_of_iff _ same_eq_true_iff

/-! ## The failing tree -/

/-- Matches nothing: the empty set. -/
def fail : Regex := .set .empty

/-- Whether a tree is the empty set. -/
def isFail : Regex → Bool
  | .set s => s.isEmpty
  | _ => false

theorem isFail_eq_true_iff {e : Regex} : e.isFail = true ↔ e = fail := by
  cases e <;> simp [isFail, fail, CharSet.isEmpty_eq_true_iff]

/-! ## Depth -/

mutual

/-- The length of the longest chain of repetitions, each inside the one before it. -/
def repeatDepth : Regex → Nat
  | .repetition _ _ _ body => 1 + repeatDepth body
  | .sequence parts => repeatDepthAll parts
  | .choice branches => repeatDepthAll branches
  | .intersection parts => repeatDepthAll parts
  | .group body => repeatDepth body
  | .complement body => repeatDepth body
  | _ => 0

/-- The greatest `repeatDepth` in a list. -/
def repeatDepthAll : List Regex → Nat
  | [] => 0
  | e :: l => max (repeatDepth e) (repeatDepthAll l)

end

end Regex

end RegexDialects
