import Mathlib.Data.List.Chain
import RegexDialects.Proofs.Nodes
import RegexDialects.Tree.SetAlgebra

/-!
# Normal form

What every node of a tree satisfies that was put together by the functions of `Tree/Build.lean` and
`Tree/SetAlgebra.lean`. The writers rely on it: a sequence is written without groups around its
parts because none of them is a sequence, and an intersection is written as one bracket expression
because at most one of its parts is the complement of a set.

The definition is a clause for each constructor (`IsNormal`); it looks one level deep and can be
evaluated. A tree is normal when all of its nodes are (`Normal`).
-/

set_option autoImplicit false

namespace RegexDialects.Regex

/-! ## Sorts of nodes -/

def isLiteral : Regex → Bool
  | .literal _ => true
  | _ => false

def isSequence : Regex → Bool
  | .sequence _ => true
  | _ => false

def isChoice : Regex → Bool
  | .choice _ => true
  | _ => false

def isIntersection : Regex → Bool
  | .intersection _ => true
  | _ => false

/-- Whether a tree is a plain set or a single character. -/
def isPlain (e : Regex) : Bool :=
  e.plainSet?.isSome

/-- Whether a tree is the complement of a plain set. -/
def isExclusion : Regex → Bool
  | .complement (.set _) => true
  | _ => false

/-- Whether a tree can stand under a complement. -/
def isNegatable : Regex → Bool
  | .set _ | .syntaxClass _ | .category _ => true
  | _ => false

/-- Whether a tree can be a part of a sequence. -/
def isPart : Regex → Bool
  | .empty | .sequence _ => false
  | _ => true

/-- Whether no two literals stand side by side. -/
def Apart (l : List Regex) : Prop :=
  l.IsChain fun e f => ¬ (e.isLiteral = true ∧ f.isLiteral = true)

instance (l : List Regex) : Decidable (Apart l) :=
  inferInstanceAs (Decidable (l.IsChain _))

/-! ## The clauses -/

/-- Whether a node is in normal form. Of its parts, only the sort matters. -/
def IsNormal : Regex → Prop
  | .literal t => t ≠ []
  | .sequence l => 2 ≤ l.length ∧ (∀ e ∈ l, e.isSequence = false ∧ e ≠ .empty) ∧ Apart l
  | .choice l =>
    2 ≤ l.length ∧ (∀ e ∈ l, e.isChoice = false ∧ e ≠ fail) ∧ ∃ e ∈ l, e.isPlain = false
  | .repetition least most _ _ => ∀ m ∈ most, least ≤ m ∧ m ≠ 0
  | .backref n => 1 ≤ n
  | .complement e => e.isNegatable = true
  | .intersection l =>
    2 ≤ l.length ∧ (∀ e ∈ l, e.isCharSetLike = true ∧ e.isIntersection = false) ∧
      l.countP isExclusion ≤ 1
  | _ => True

instance : DecidablePred IsNormal
  | .literal t => inferInstanceAs (Decidable (t ≠ []))
  | .sequence _ => inferInstanceAs (Decidable (_ ∧ _ ∧ _))
  | .choice _ => inferInstanceAs (Decidable (_ ∧ _ ∧ _))
  | .repetition least most _ _ => inferInstanceAs (Decidable (∀ m ∈ most, least ≤ m ∧ m ≠ 0))
  | .backref n => inferInstanceAs (Decidable (1 ≤ n))
  | .complement e => inferInstanceAs (Decidable (e.isNegatable = true))
  | .intersection _ => inferInstanceAs (Decidable (_ ∧ _ ∧ _))
  | .empty => inferInstanceAs (Decidable True)
  | .primitive _ => inferInstanceAs (Decidable True)
  | .group _ => inferInstanceAs (Decidable True)
  | .syntaxClass _ => inferInstanceAs (Decidable True)
  | .category _ => inferInstanceAs (Decidable True)
  | .set _ => inferInstanceAs (Decidable True)

/-- Whether a tree is in normal form at every node. -/
def Normal (e : Regex) : Prop :=
  e.Everywhere IsNormal

/-! ## Sorts and clauses -/

theorem isPart_eq_true_iff {e : Regex} :
    e.isPart = true ↔ e.isSequence = false ∧ e ≠ .empty := by
  cases e <;> simp [isPart, isSequence]

theorem ne_nil_of_two_le_length {l : List Regex} (h : 2 ≤ l.length) : l ≠ [] := by
  intro hn
  rw [hn] at h
  exact absurd h (Nat.not_succ_le_zero 1)

theorem IsNormal.isPart_of_mem {l : List Regex} (h : IsNormal (.sequence l)) {e : Regex}
    (he : e ∈ l) : e.isPart = true :=
  isPart_eq_true_iff.2 (h.2.1 e he)

/-- A literal that is plain is one character long. -/
theorem isPlain_literal {t : List Char} : (literal t).isPlain = true ↔ ∃ c, t = [c] := by
  match t with
  | [] => simp [isPlain, plainSet?]
  | [c] => simp [isPlain, plainSet?]
  | c :: d :: t => simp [isPlain, plainSet?]

theorem isPlain_iff {e : Regex} :
    e.isPlain = true ↔ (∃ s, e = .set s) ∨ ∃ c, e = .literal [c] := by
  cases e with
  | set s => simp [isPlain, plainSet?]
  | literal t => simp [isPlain_literal]
  | _ => simp [isPlain, plainSet?]

theorem isNegatable_iff {e : Regex} :
    e.isNegatable = true ↔
      (∃ s, e = .set s) ∨ (∃ k, e = .syntaxClass k) ∨ ∃ k, e = .category k := by
  cases e <;> simp [isNegatable]

theorem allCharSetLike_iff {l : List Regex} :
    allCharSetLike l = true ↔ ∀ e ∈ l, e.isCharSetLike = true := by
  induction l with
  | nil => simp [allCharSetLike]
  | cons e l ih => simp [allCharSetLike, ih]

end RegexDialects.Regex
