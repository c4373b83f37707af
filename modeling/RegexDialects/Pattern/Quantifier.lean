import RegexDialects.Pattern.Bounds
import RegexDialects.Tree.Build

/-!
# Quantifiers

Any number of quantifiers may follow an item, the innermost one first. How one is spelled depends on
the dialect (`QuantifierGrammar`); what a row of them does to an item does not (`quantified`).

Every quantifier nests the item one level deeper. The reader is given the number of levels that are
still allowed and counts down, so the row ends even where repetitions collapse.
-/

set_option autoImplicit false

namespace RegexDialects.Pattern

/-- A quantifier. -/
structure Quantifier where
  least : Nat
  most : Option Nat
  greedy : Bool
  deriving DecidableEq, Repr

/-- Whether the upper bound is below the lower one. -/
def Quantifier.isInverted (q : Quantifier) : Bool :=
  match q.most with
  | some m => m < q.least
  | none => false

/-- The bounds that an operator stands for. -/
def operatorBounds? (c : Char) : Option (Nat × Option Nat) :=
  if c = '*' then some (0, none)
  else if c = '+' then some (1, none)
  else if c = '?' then some (0, some 1)
  else none

/-- Whether a quantifier is greedy, by the mark behind it, and what follows. -/
def greedyMark : List Char → Bool × List Char
  | '?' :: rest => (false, rest)
  | text => (true, text)

theorem greedyMark_suffix (text : List Char) : (greedyMark text).2 <:+ text := by
  unfold greedyMark
  split
  · exact List.suffix_cons _ _
  · exact List.suffix_refl _

/-- How a dialect spells quantifiers. -/
structure QuantifierGrammar where
  /-- Drops what may stand in front of a quantifier. -/
  skip : List Char → List Char
  /-- Reads one quantifier, if there is one. -/
  read? : List Char → Except Fault (Option (Quantifier × List Char))
  skip_suffix : ∀ text, skip text <:+ text
  read?_suffix : ∀ {text rest q}, read? text = .ok (some (q, rest)) → rest <:+ text

/-- Applies all quantifiers that follow to `e`, which `budget` more levels may enclose. -/
def quantified (g : QuantifierGrammar) (budget : Nat) (e : Regex) (text : List Char) :
    Reading Regex :=
  match g.read? (g.skip text) with
  | .error f => .error f
  | .ok none => .ok (e, g.skip text)
  | .ok (some (q, rest)) =>
    -- Bounds out of order are an error at any depth.
    if q.isInverted then .error ⟨.invertedRepetition, g.skip text, rest⟩
    else
      match budget with
      | 0 => .error ⟨.tooDeep, g.skip text, rest⟩
      | budget + 1 =>
        match Regex.repeated q.least q.most q.greedy e with
        | .error cause => .error ⟨.construct cause, g.skip text, rest⟩
        | .ok e => quantified g budget e rest

theorem quantified_suffix {g : QuantifierGrammar} {budget : Nat} {e e' : Regex}
    {text rest : List Char} (h : quantified g budget e text = .ok (e', rest)) : rest <:+ text := by
  induction budget generalizing e text with
  | zero =>
    unfold quantified at h
    split at h
    · simp at h
    · cases h
      exact g.skip_suffix _
    · split at h <;> simp at h
  | succ budget ih =>
    unfold quantified at h
    split at h
    · simp at h
    · cases h
      exact g.skip_suffix _
    · next q mid hq =>
      split at h
      · simp at h
      · simp only at h
        split at h
        · simp at h
        · exact (ih h).trans ((g.read?_suffix hq).trans (g.skip_suffix _))

end RegexDialects.Pattern
