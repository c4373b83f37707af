import RegexDialects.Proofs.Marks

/-!
# Groups that capture

The bodies of the groups of a tree, in the order in which the groups open: the one at place `k` is
what a back reference to `k + 1` means. Constructors hand groups on (`Marks.lean`), so there is one
equation for each of them.
-/

set_option autoImplicit false

namespace RegexDialects.Regex

/-- The body of a group. -/
def groupBody? : Regex → Option Regex
  | .group e => some e
  | _ => none

/-- The bodies of the groups of a tree, in preorder. -/
def captures (e : Regex) : List Regex :=
  e.marks.filterMap groupBody?

theorem filterMap_flatMap_marks (l : List Regex) :
    (l.flatMap marks).filterMap groupBody? = l.flatMap captures :=
  List.filterMap_flatMap

theorem captures_of_marks {e : Regex} (h : e.marks = []) : e.captures = [] := by
  rw [captures, h]
  rfl

section Equations

@[simp] theorem captures_empty : (empty : Regex).captures = [] := rfl

@[simp] theorem captures_literal {t : List Char} : (literal t).captures = [] := rfl

@[simp] theorem captures_primitive {p : Primitive} : (primitive p).captures = [] := rfl

@[simp] theorem captures_sequence {l : List Regex} :
    (sequence l).captures = l.flatMap captures := by
  rw [captures, marks_sequence, filterMap_flatMap_marks]

@[simp] theorem captures_choice {l : List Regex} : (choice l).captures = l.flatMap captures := by
  rw [captures, marks_choice, filterMap_flatMap_marks]

@[simp] theorem captures_repetition {n : Nat} {m : Option Nat} {g : Bool} {e : Regex} :
    (repetition n m g e).captures = e.captures := rfl

@[simp] theorem captures_group {e : Regex} : (group e).captures = e :: e.captures := rfl

@[simp] theorem captures_backref {n : Nat} : (backref n).captures = [] := rfl

@[simp] theorem captures_syntaxClass {k : SyntaxClass} : (syntaxClass k).captures = [] := rfl

@[simp] theorem captures_category {k : Category} : (category k).captures = [] := rfl

@[simp] theorem captures_set {s : CharSet} : (set s).captures = [] := rfl

@[simp] theorem captures_complement {e : Regex} : (complement e).captures = e.captures := rfl

@[simp] theorem captures_intersection {l : List Regex} :
    (intersection l).captures = l.flatMap captures := by
  rw [captures, marks_intersection, filterMap_flatMap_marks]

end Equations

/-! ## Constructors -/

theorem captures_text (t : List Char) : (text t).captures = [] :=
  captures_of_marks (marks_text t)

theorem captures_seq (l : List Regex) : (seq l).captures = l.flatMap captures := by
  rw [captures, marks_seq, filterMap_flatMap_marks]

theorem captures_alt (l : List Regex) : (alt l).captures = l.flatMap captures := by
  rw [captures, marks_alt, filterMap_flatMap_marks]

/-- A repetition keeps the groups of its body if it may occur at all. -/
theorem captures_repeated {least : Nat} {most : Option Nat} {greedy : Bool} {e e' : Regex}
    (h : repeated least most greedy e = .ok e') :
    e'.captures = if most = some 0 then [] else e.captures := by
  rw [captures, marks_repeated h]
  split <;> rfl

end RegexDialects.Regex
