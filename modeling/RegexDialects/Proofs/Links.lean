import RegexDialects.Proofs.Captures

/-!
# Groups and the references to them

The groups of a tree together with its back references, in preorder (`links`). How they stand to
each other is what a reference is about: `\k` means the group at place `k`, and can be of use only
behind it. Like all marks they are handed on by constructors, and there is one equation for each
sort of node.
-/

set_option autoImplicit false

namespace RegexDialects.Regex

/-- Whether a node is a group. -/
def isGroup : Regex → Bool
  | .group _ => true
  | _ => false

/-- Whether a node is a group or refers to one. -/
def isLink : Regex → Bool
  | .group _ | .backref _ => true
  | _ => false

/-- The groups and the back references of a tree, in preorder. -/
def links (e : Regex) : List Regex :=
  e.marks.filter isLink

theorem filter_flatMap_marks (l : List Regex) :
    (l.flatMap marks).filter isLink = l.flatMap links :=
  List.filter_flatMap

theorem links_of_marks {e : Regex} (h : e.marks = []) : e.links = [] := by
  rw [links, h]
  rfl

/-- The groups among the links. -/
theorem captures_eq_filterMap_links (e : Regex) : e.captures = e.links.filterMap groupBody? := by
  rw [captures, links, List.filterMap_filter]
  apply List.filterMap_congr
  intro x _
  cases x <;> rfl

theorem captures_of_links {e : Regex} (h : e.links = []) : e.captures = [] := by
  rw [captures_eq_filterMap_links, h]
  rfl

section Equations

@[simp] theorem links_empty : (empty : Regex).links = [] := rfl

@[simp] theorem links_literal {t : List Char} : (literal t).links = [] := rfl

@[simp] theorem links_primitive {p : Primitive} : (primitive p).links = [] := rfl

@[simp] theorem links_sequence {l : List Regex} : (sequence l).links = l.flatMap links := by
  rw [links, marks_sequence, filter_flatMap_marks]

@[simp] theorem links_choice {l : List Regex} : (choice l).links = l.flatMap links := by
  rw [links, marks_choice, filter_flatMap_marks]

@[simp] theorem links_repetition {n : Nat} {m : Option Nat} {g : Bool} {e : Regex} :
    (repetition n m g e).links = e.links := rfl

@[simp] theorem links_group {e : Regex} : (group e).links = .group e :: e.links := rfl

@[simp] theorem links_backref {n : Nat} : (backref n).links = [.backref n] := rfl

@[simp] theorem links_syntaxClass {k : SyntaxClass} : (syntaxClass k).links = [] := rfl

@[simp] theorem links_category {k : Category} : (category k).links = [] := rfl

@[simp] theorem links_set {s : CharSet} : (set s).links = [] := rfl

@[simp] theorem links_complement {e : Regex} : (complement e).links = e.links := rfl

@[simp] theorem links_intersection {l : List Regex} :
    (intersection l).links = l.flatMap links := by
  rw [links, marks_intersection, filter_flatMap_marks]

end Equations

/-! ## Constructors -/

theorem links_seq (l : List Regex) : (seq l).links = l.flatMap links := by
  rw [links, marks_seq, filter_flatMap_marks]

theorem links_alt (l : List Regex) : (alt l).links = l.flatMap links := by
  rw [links, marks_alt, filter_flatMap_marks]

/-- A repetition keeps the links of its body, or has none. -/
theorem links_repeated {least : Nat} {most : Option Nat} {greedy : Bool} {e e' : Regex}
    (h : repeated least most greedy e = .ok e') : e'.links = e.links ∨ e'.links = [] := by
  rcases repeated_cases h with ⟨-, rfl⟩ | ⟨-, rfl⟩
  · exact Or.inr rfl
  · exact Or.inl rfl

end RegexDialects.Regex
