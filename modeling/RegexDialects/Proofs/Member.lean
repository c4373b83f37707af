import RegexDialects.Pattern.Bracket
import RegexDialects.Proofs.Construction

/-!
# Members of bracket expressions

Whatever the dialect, a bracket expression has two sorts of members: items of a plain set, and
complements of named classes (`Member`). The reader turns each of them into a tree, and into the
complement of a tree if the expression is negated; `bracketTree_negated` says at once what comes of
a negated expression.
-/

set_option autoImplicit false

namespace RegexDialects.Pattern

open Regex

/-- What stands for itself in a bracket expression. -/
inductive Member where
  | item (i : CharSet.Item)
  /-- The complement of a named class. -/
  | except (k : PosixClass)
  deriving DecidableEq

namespace Member

/-- The tree of a member. -/
def tree : Member → Regex
  | item i => .set (.of i)
  | except k => .complement (.set (.of (.posix k)))

/-- What a member asks of a character in a negated expression. -/
def opposite : Member → Conjunct
  | item i => .without (.of i)
  | except k => .within (.set (.of (.posix k)))

/-- Whether a member can be spelled: a character, a range that is in order, a class. -/
def IsSpelled : Member → Prop
  | item (.char _) | item (.posix _) | except _ => True
  | item (.range lo hi) => lo ≤ hi
  | item (.chars _) | item (.set _) => False

end Member

/-- The complement of a member is there, and is an operand of an intersection. -/
theorem conjunct_of_negate_tree (m : Member) :
    ∃ e, m.tree.negate = .ok e ∧ e.operands = [e] ∧ e.conjunct = .ok m.opposite := by
  cases m with
  | item i => exact ⟨_, rfl, rfl, rfl⟩
  | except k => exact ⟨_, rfl, rfl, rfl⟩

theorem mapM_negate_tree (ms : List Member) :
    ∃ l, (ms.map Member.tree).mapM negate = .ok l ∧
      (operandsAll l).mapM conjunct = .ok (ms.map Member.opposite) := by
  induction ms with
  | nil => exact ⟨[], rfl, rfl⟩
  | cons m ms ih =>
    obtain ⟨l, hl, hc⟩ := ih
    obtain ⟨e, he, ho, hm⟩ := conjunct_of_negate_tree m
    refine ⟨e :: l, ?_, ?_⟩
    · rw [List.map_cons, List.mapM_cons, he, hl]
      rfl
    · rw [operandsAll, ho, List.singleton_append, List.mapM_cons, hm, hc]
      rfl

/-- A negated expression is the conjunction of what its members exclude. -/
theorem bracketTree_negated (ms : List Member) :
    bracketTree true (ms.map Member.tree) = .ok (conjunction (ms.map Member.opposite)) := by
  obtain ⟨l, hl, hc⟩ := mapM_negate_tree ms
  simp only [bracketTree, if_true, hl]
  show intersect l = _
  rw [intersect, hc]
  rfl

theorem bracketTree_positive (l : List Regex) : bracketTree false l = .ok (union l) := rfl

/-! ## The items of a set -/

section Items

variable {s : CharSet}

/-- The items of a set are the set, in a union with what is not plain. -/
theorem union_items_between (hs : s.Tidy) (hn : s ≠ .empty) {before after : List Regex}
    (hb : ∀ e ∈ before, isSymbolic e = true) (ha : ∀ e ∈ after, isSymbolic e = true) :
    union (before ++ ((s.items.map .item).map Member.tree ++ after)) =
      alt (before ++ .set s :: after) := by
  obtain ⟨i, l, hil⟩ := List.exists_cons_of_ne_nil (CharSet.items_ne_nil hn)
  have hfold : (l.map CharSet.of).foldl .union (.of i) = s := by
    have h := CharSet.foldl_union_items hs
    rw [hil, List.map_cons, List.foldl_cons, CharSet.union_of] at h
    exact h
  have hplain : ((s.items.map Member.item).map Member.tree).map plainSet? =
      (.of i :: l.map CharSet.of).map some := by
    rw [hil]
    simp [Member.tree, plainSet?]
  rw [union_of_block hb ha hplain, hfold]

/-- The items of a set are the set, in a union. -/
theorem union_items (hs : s.Tidy) (hn : s ≠ .empty) :
    union ((s.items.map .item).map Member.tree) = .set s := by
  have h := @union_items_between s hs hn [] [] nofun nofun
  rw [List.nil_append, List.append_nil] at h
  rw [h]
  exact alt_singleton trivial

theorem required_items : required ((s.items.map .item).map Member.opposite) = [] := by
  apply List.filterMap_eq_nil_iff.2
  intro c hc
  rw [List.map_map, List.mem_map] at hc
  obtain ⟨i, -, rfl⟩ := hc
  rfl

theorem excluded?_items :
    ((s.items.map Member.item).map Member.opposite).filterMap Conjunct.excluded? =
      s.items.map CharSet.of := by
  induction s.items with
  | nil => rfl
  | cons i l ih =>
    rw [List.map_cons, List.map_cons, List.map_cons, ← ih]
    rfl

/-- The items of a set are the set, in an exclusion. -/
theorem conjunction_items (hs : s.Tidy) :
    conjunction ((s.items.map .item).map Member.opposite) = .complement (.set s) := by
  rw [conjunction_of_required_eq_nil required_items, excluded, excluded?_items,
    CharSet.foldl_union_items hs]

end Items

/-! ## Demands -/

section Demands

variable {D : Demands} {m : Member}

theorem fit_tree (hD : ∀ {i}, Member.IsSpelled (.item i) → D.set (.of i)) (hm : m.IsSpelled) :
    m.tree.Fit D := by
  cases m with
  | item i => exact fit_set.2 (hD hm)
  | except k => exact fit_complement.2 ⟨rfl, fit_set.2 (hD (i := .posix k) trivial)⟩

theorem fit_opposite (hD : ∀ {i}, Member.IsSpelled (.item i) → D.set (.of i))
    (hp : ∀ k, D.part (.set (.of (.posix k)))) (hm : m.IsSpelled) : m.opposite.Fit D := by
  cases m with
  | item i => exact hD hm
  | except k => exact ⟨fit_set.2 (hD (i := .posix k) trivial), rfl, rfl, rfl, hp k⟩

end Demands

end RegexDialects.Pattern
