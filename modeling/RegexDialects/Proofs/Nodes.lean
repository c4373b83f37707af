import RegexDialects.Tree.Basic

/-!
# The nodes of a tree

What is asked of a tree is mostly asked of each of its nodes: that it is in normal form, that its
sets are in order, that it is no empty set. `nodes` lists them, the tree itself first, and
`Everywhere P` says that all of them satisfy `P`; its equations take such a statement apart along
the tree. `inductionOn` is induction over trees with a hypothesis for each member of a list, and
`rewrite` replaces every node by what a function makes of it.
-/

set_option autoImplicit false

namespace RegexDialects.Regex

/-! ## Induction -/

/-- Induction over trees. -/
@[elab_as_elim]
theorem inductionOn {motive : Regex → Prop} (e : Regex)
    (empty : motive .empty)
    (literal : ∀ t, motive (.literal t))
    (primitive : ∀ p, motive (.primitive p))
    (sequence : ∀ l, (∀ e ∈ l, motive e) → motive (.sequence l))
    (choice : ∀ l, (∀ e ∈ l, motive e) → motive (.choice l))
    (repetition : ∀ n m g e, motive e → motive (.repetition n m g e))
    (group : ∀ e, motive e → motive (.group e))
    (backref : ∀ n, motive (.backref n))
    (syntaxClass : ∀ k, motive (.syntaxClass k))
    (category : ∀ k, motive (.category k))
    (set : ∀ s, motive (.set s))
    (complement : ∀ e, motive e → motive (.complement e))
    (intersection : ∀ l, (∀ e ∈ l, motive e) → motive (.intersection l)) :
    motive e :=
  Regex.rec (motive_1 := motive) (motive_2 := fun l => ∀ e ∈ l, motive e)
    empty literal primitive sequence choice repetition group backref syntaxClass category set
    complement intersection (fun _ h => absurd h List.not_mem_nil)
    (fun _ _ he hl _ h => (List.mem_cons.1 h).elim (fun h => h ▸ he) (hl _)) e

/-! ## Nodes -/

mutual

/-- The nodes of a tree, in preorder. -/
def nodes : Regex → List Regex
  | .sequence l => .sequence l :: nodesAll l
  | .choice l => .choice l :: nodesAll l
  | .repetition n m g e => .repetition n m g e :: nodes e
  | .group e => .group e :: nodes e
  | .complement e => .complement e :: nodes e
  | .intersection l => .intersection l :: nodesAll l
  | e => [e]

/-- The nodes of all of a list. -/
def nodesAll : List Regex → List Regex
  | [] => []
  | e :: l => nodes e ++ nodesAll l

end

theorem mem_nodesAll {x : Regex} {l : List Regex} : x ∈ nodesAll l ↔ ∃ e ∈ l, x ∈ e.nodes := by
  induction l with
  | nil => simp [nodesAll]
  | cons e l ih => simp [nodesAll, ih]

theorem mem_nodes_self (e : Regex) : e ∈ e.nodes := by
  cases e <;> simp [nodes]

/-- The trees that a node holds. -/
def children : Regex → List Regex
  | .sequence l => l
  | .choice l => l
  | .intersection l => l
  | .repetition _ _ _ e => [e]
  | .group e => [e]
  | .complement e => [e]
  | _ => []

/-- Induction over trees, from what a node holds to the node. -/
theorem inductionOnChildren {motive : Regex → Prop} (e : Regex)
    (step : ∀ e, (∀ c ∈ e.children, motive c) → motive e) : motive e := by
  induction e using inductionOn with
  | sequence l ih | choice l ih | intersection l ih => exact step _ ih
  | repetition _ _ _ c ih | group c ih | complement c ih =>
    exact step _ (List.forall_mem_singleton.2 ih)
  | _ => exact step _ nofun

theorem mem_nodes_iff_of_children {e x : Regex} :
    x ∈ e.nodes ↔ x = e ∨ ∃ c ∈ e.children, x ∈ c.nodes := by
  cases e <;> simp [nodes, children, mem_nodesAll]

/-! ## Properties of all nodes -/

/-- Whether every node of a tree satisfies `P`. -/
def Everywhere (P : Regex → Prop) (e : Regex) : Prop :=
  ∀ x ∈ e.nodes, P x

section Everywhere

variable {P Q : Regex → Prop}

theorem Everywhere.self {e : Regex} (h : e.Everywhere P) : P e :=
  h e e.mem_nodes_self

theorem Everywhere.imp {e : Regex} (h : e.Everywhere P) (hPQ : ∀ x, P x → Q x) :
    e.Everywhere Q := by
  intro x hx
  exact hPQ x (h x hx)

theorem Everywhere.of_mem_children {e c : Regex} (h : e.Everywhere P) (hc : c ∈ e.children) :
    c.Everywhere P := by
  intro x hx
  exact h x (mem_nodes_iff_of_children.2 (Or.inr ⟨c, hc, hx⟩))

theorem forall_mem_nodesAll {l : List Regex} :
    (∀ x ∈ nodesAll l, P x) ↔ ∀ e ∈ l, e.Everywhere P := by
  constructor
  · intro h e he x hx
    exact h x (mem_nodesAll.2 ⟨e, he, hx⟩)
  · intro h x hx
    obtain ⟨e, he, hx⟩ := mem_nodesAll.1 hx
    exact h e he x hx

/-- What holds of a tree with branches, and of all of these. -/
theorem everywhere_node {e : Regex} {l : List Regex} (h : e.nodes = e :: nodesAll l) :
    e.Everywhere P ↔ P e ∧ ∀ x ∈ l, x.Everywhere P := by
  rw [Everywhere, h, List.forall_mem_cons, forall_mem_nodesAll]

/-- What holds of a tree around another one. -/
theorem everywhere_around {e f : Regex} (h : e.nodes = e :: f.nodes) :
    e.Everywhere P ↔ P e ∧ f.Everywhere P := by
  rw [Everywhere, h, List.forall_mem_cons, Everywhere]

theorem everywhere_leaf {e : Regex} (h : e.nodes = [e]) : e.Everywhere P ↔ P e := by
  rw [Everywhere, h, List.forall_mem_singleton]

@[simp] theorem everywhere_empty : (empty : Regex).Everywhere P ↔ P .empty :=
  everywhere_leaf rfl

@[simp] theorem everywhere_literal {t : List Char} :
    (literal t).Everywhere P ↔ P (.literal t) :=
  everywhere_leaf rfl

@[simp] theorem everywhere_primitive {p : Primitive} :
    (primitive p).Everywhere P ↔ P (.primitive p) :=
  everywhere_leaf rfl

@[simp] theorem everywhere_sequence {l : List Regex} :
    (sequence l).Everywhere P ↔ P (.sequence l) ∧ ∀ e ∈ l, e.Everywhere P :=
  everywhere_node rfl

@[simp] theorem everywhere_choice {l : List Regex} :
    (choice l).Everywhere P ↔ P (.choice l) ∧ ∀ e ∈ l, e.Everywhere P :=
  everywhere_node rfl

@[simp] theorem everywhere_repetition {n : Nat} {m : Option Nat} {g : Bool} {e : Regex} :
    (repetition n m g e).Everywhere P ↔ P (.repetition n m g e) ∧ e.Everywhere P :=
  everywhere_around rfl

@[simp] theorem everywhere_group {e : Regex} :
    (group e).Everywhere P ↔ P (.group e) ∧ e.Everywhere P :=
  everywhere_around rfl

@[simp] theorem everywhere_backref {n : Nat} : (backref n).Everywhere P ↔ P (.backref n) :=
  everywhere_leaf rfl

@[simp] theorem everywhere_syntaxClass {k : SyntaxClass} :
    (syntaxClass k).Everywhere P ↔ P (.syntaxClass k) :=
  everywhere_leaf rfl

@[simp] theorem everywhere_category {k : Category} :
    (category k).Everywhere P ↔ P (.category k) :=
  everywhere_leaf rfl

@[simp] theorem everywhere_set {s : CharSet} : (set s).Everywhere P ↔ P (.set s) :=
  everywhere_leaf rfl

@[simp] theorem everywhere_complement {e : Regex} :
    (complement e).Everywhere P ↔ P (.complement e) ∧ e.Everywhere P :=
  everywhere_around rfl

@[simp] theorem everywhere_intersection {l : List Regex} :
    (intersection l).Everywhere P ↔ P (.intersection l) ∧ ∀ e ∈ l, e.Everywhere P :=
  everywhere_node rfl

end Everywhere

/-! ## Rewriting -/

mutual

/-- A tree with `f` applied to all of its nodes, the innermost first. -/
def rewrite (f : Regex → Regex) : Regex → Regex
  | .sequence l => f (.sequence (rewriteAll f l))
  | .choice l => f (.choice (rewriteAll f l))
  | .repetition n m g e => f (.repetition n m g (rewrite f e))
  | .group e => f (.group (rewrite f e))
  | .complement e => f (.complement (rewrite f e))
  | .intersection l => f (.intersection (rewriteAll f l))
  | e => f e

/-- All of a list, rewritten. -/
def rewriteAll (f : Regex → Regex) : List Regex → List Regex
  | [] => []
  | e :: l => rewrite f e :: rewriteAll f l

end

theorem rewriteAll_eq_map (f : Regex → Regex) (l : List Regex) :
    rewriteAll f l = l.map (rewrite f) := by
  induction l with
  | nil => rfl
  | cons e l ih => rw [rewriteAll, ih, List.map_cons]

end RegexDialects.Regex
