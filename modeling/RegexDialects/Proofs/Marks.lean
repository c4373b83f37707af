import RegexDialects.Proofs.Member

/-!
# What constructors hand on

The constructors open nested sequences and choices, merge literals and sets, and drop what is empty
or fails. All other leaves, and groups, they hand on as they are and in order: `marks` lists these
nodes, and there is one equation for each constructor. Only a repetition that may not occur at all
loses any.
-/

set_option autoImplicit false

namespace RegexDialects.Regex

/-- Whether a node is one that constructors neither make nor merge. -/
def isMark : Regex → Bool
  | .primitive _ | .group _ | .backref _ | .syntaxClass _ | .category _ => true
  | _ => false

/-- The nodes of a tree that constructors neither make nor merge, in preorder. -/
def marks (e : Regex) : List Regex :=
  e.nodes.filter isMark

theorem filter_nodesAll (l : List Regex) : (nodesAll l).filter isMark = l.flatMap marks := by
  induction l with
  | nil => rfl
  | cons e l ih => rw [nodesAll, List.filter_append, ih, List.flatMap_cons, marks]

section Equations

@[simp] theorem marks_empty : (empty : Regex).marks = [] := rfl

@[simp] theorem marks_literal {t : List Char} : (literal t).marks = [] := rfl

@[simp] theorem marks_primitive {p : Primitive} : (primitive p).marks = [.primitive p] := rfl

@[simp] theorem marks_sequence {l : List Regex} : (sequence l).marks = l.flatMap marks :=
  filter_nodesAll l

@[simp] theorem marks_choice {l : List Regex} : (choice l).marks = l.flatMap marks :=
  filter_nodesAll l

@[simp] theorem marks_repetition {n : Nat} {m : Option Nat} {g : Bool} {e : Regex} :
    (repetition n m g e).marks = e.marks := rfl

@[simp] theorem marks_group {e : Regex} : (group e).marks = .group e :: e.marks := rfl

@[simp] theorem marks_backref {n : Nat} : (backref n).marks = [.backref n] := rfl

@[simp] theorem marks_syntaxClass {k : SyntaxClass} :
    (syntaxClass k).marks = [.syntaxClass k] := rfl

@[simp] theorem marks_category {k : Category} : (category k).marks = [.category k] := rfl

@[simp] theorem marks_set {s : CharSet} : (set s).marks = [] := rfl

@[simp] theorem marks_complement {e : Regex} : (complement e).marks = e.marks := rfl

@[simp] theorem marks_intersection {l : List Regex} :
    (intersection l).marks = l.flatMap marks :=
  filter_nodesAll l

end Equations

/-! ## Texts, sequences and choices -/

theorem marks_text (t : List Char) : (text t).marks = [] := by
  unfold text
  split <;> rfl

theorem additive_marks : Additive marks where
  empty := marks_empty
  literal := fun _ _ => rfl
  sequence := fun _ => marks_sequence

/-- A sequence hands on the marks of its parts. -/
theorem marks_seq (l : List Regex) : (seq l).marks = l.flatMap marks :=
  additive_marks.seq l

theorem marks_of_plainSet? {e : Regex} {s : CharSet} (h : e.plainSet? = some s) :
    e.marks = [] := by
  unfold plainSet? at h
  split at h <;> cases h <;> rfl

theorem flatMap_marks_branches (e : Regex) : e.branches.flatMap marks = e.marks := by
  by_cases hf : e = fail
  · rw [hf]
    rfl
  · cases hc : e.isChoice with
    | true =>
      cases e <;> simp [isChoice] at hc
      exact marks_choice.symm
    | false =>
      rw [branches_of_ne hc hf]
      exact List.flatMap_singleton marks e

theorem marks_ofBranches (l : List Regex) : (ofBranches l).marks = l.flatMap marks := by
  match l with
  | [] => rfl
  | [e] => exact (List.flatMap_singleton marks e).symm
  | e :: f :: l =>
    cases hm : (e :: f :: l).mapM plainSet? with
    | none =>
      rw [ofBranches_of_not_plain hm]
      exact marks_choice
    | some sets =>
      -- Plain branches have no marks, and neither has the set that they fold into.
      rw [ofBranches_of_plain hm, marks_set, eq_comm, List.flatMap_eq_nil_iff]
      intro x hx
      obtain ⟨s, -, hs⟩ := exists_plainSet?_of_mapM hm hx
      exact marks_of_plainSet? hs

/-- A choice hands on the marks of its branches. -/
theorem marks_alt (l : List Regex) : (alt l).marks = l.flatMap marks := by
  rw [alt_eq_ofBranches, marks_ofBranches, List.flatMap_assoc]
  exact List.flatMap_congr fun e _ => flatMap_marks_branches e

/-! ## Repetitions -/

/-- A repetition that may occur hands on the marks of its body; one that may not has none. -/
theorem marks_repeated {least : Nat} {most : Option Nat} {greedy : Bool} {e e' : Regex}
    (h : repeated least most greedy e = .ok e') :
    e'.marks = if most = some 0 then [] else e.marks := by
  rcases repeated_cases h with ⟨rfl, rfl⟩ | ⟨horder, rfl⟩
  · rfl
  · have hmost : most ≠ some 0 := fun hm => (horder 0 hm).2 rfl
    rw [if_neg hmost]
    rfl

/-! ## Unions and intersections -/

theorem flatMap_marks_filter (l : List Regex) :
    (l.filter isSymbolic).flatMap marks = l.flatMap marks := by
  induction l with
  | nil => rfl
  | cons e l ih =>
    cases hs : e.plainSet? with
    | none =>
      have he : e.isSymbolic = true := by rw [isSymbolic, hs]; rfl
      rw [List.filter_cons_of_pos he, List.flatMap_cons, List.flatMap_cons, ih]
    | some s =>
      have he : ¬ e.isSymbolic = true := by rw [isSymbolic, hs]; exact Bool.false_ne_true
      rw [List.filter_cons_of_neg he, List.flatMap_cons, marks_of_plainSet? hs, ih]
      rfl

/-- A union hands on the marks of its operands. -/
theorem marks_union (l : List Regex) : (union l).marks = l.flatMap marks := by
  cases h : l.filterMap plainSet? with
  | nil => rw [union_of_filterMap_eq_nil h, marks_alt]
  | cons s sets =>
    rw [union_of_filterMap_eq_cons h, marks_alt, List.flatMap_append, List.flatMap_cons,
      marks_set, List.nil_append, flatMap_marks_filter, ← List.flatMap_append,
      List.takeWhile_append_dropWhile]

theorem marks_ofConjuncts (l : List Regex) : (ofConjuncts l).marks = l.flatMap marks := by
  match l with
  | [] => rfl
  | [e] => exact (List.flatMap_singleton marks e).symm
  | e :: f :: l => exact marks_intersection

/-- A conjunction hands on the marks of what is required. -/
theorem marks_conjunction (cs : List Conjunct) :
    (conjunction cs).marks = (required cs).flatMap marks := by
  by_cases hr : required cs = []
  · rw [conjunction_of_required_eq_nil hr, hr]
    rfl
  · rw [conjunction_of_required_ne_nil hr, marks_ofConjuncts]
    unfold conjuncts
    split
    · rfl
    · rw [List.flatMap_append, List.flatMap_singleton, marks_complement, marks_set,
        List.append_nil]

end RegexDialects.Regex

namespace RegexDialects.Pattern

open Regex

/-! ## Bracket expressions -/

theorem Member.marks_tree (m : Member) : m.tree.marks = [] := by
  cases m <;> rfl

theorem Member.marks_of_required {m : Member} {e : Regex} (h : m.opposite = .within e) :
    e.marks = [] := by
  cases m with
  | item i => cases h
  | except k =>
    cases h
    rfl

theorem marks_union_members (ms : List Member) : (union (ms.map Member.tree)).marks = [] := by
  rw [marks_union, List.flatMap_eq_nil_iff, List.forall_mem_map]
  exact fun m _ => m.marks_tree

theorem marks_conjunction_members (ms : List Member) :
    (conjunction (ms.map Member.opposite)).marks = [] := by
  rw [marks_conjunction, List.flatMap_eq_nil_iff]
  intro e he
  obtain ⟨m, -, hm⟩ := List.mem_map.1 (mem_required.1 he)
  exact Member.marks_of_required hm

/-- A bracket expression has no marks. -/
theorem marks_bracketTree {negated : Bool} {ms : List Member} {e : Regex}
    (h : bracketTree negated (ms.map Member.tree) = .ok e) : e.marks = [] := by
  cases negated with
  | false =>
    cases h
    exact marks_union_members ms
  | true =>
    rw [bracketTree_negated] at h
    cases h
    exact marks_conjunction_members ms

end RegexDialects.Pattern
