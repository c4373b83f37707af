import RegexDialects.CharSet.PosixClass

/-!
# Plain character sets

A plain set is a union of explicit characters, closed ranges and named classes. Each of the three
lists keeps its members in the order in which they came, and no member twice, so that a set is
written the way it was read.

Sets grow by `adjoin`. Complements and intersections are no plain sets: they stay symbolic in the
tree (`Tree/SetAlgebra.lean`).
-/

set_option autoImplicit false

namespace RegexDialects

/-- `xs` with `x` at the end, unless it is there already. -/
def addNew {α : Type} [DecidableEq α] (xs : List α) (x : α) : List α :=
  if x ∈ xs then xs else xs ++ [x]

/-- `xs` with each of `ys` added at the end in turn. -/
def addAllNew {α : Type} [DecidableEq α] (xs ys : List α) : List α :=
  ys.foldl addNew xs

theorem mem_addNew {α : Type} [DecidableEq α] {xs : List α} {x y : α} :
    y ∈ addNew xs x ↔ y ∈ xs ∨ y = x := by
  unfold addNew
  split
  · next hx => exact ⟨Or.inl, fun h => h.elim id fun e => e ▸ hx⟩
  · simp

theorem mem_addAllNew {α : Type} [DecidableEq α] {xs ys : List α} {y : α} :
    y ∈ addAllNew xs ys ↔ y ∈ xs ∨ y ∈ ys := by
  unfold addAllNew
  induction ys generalizing xs with
  | nil => simp
  | cons x ys ih => simp [ih, mem_addNew, or_assoc]

theorem nodup_addNew {α : Type} [DecidableEq α] {xs : List α} (h : xs.Nodup) (x : α) :
    (addNew xs x).Nodup := by
  unfold addNew
  split
  · exact h
  · next hx =>
    refine List.nodup_append.2 ⟨h, by simp, fun a ha b hb e => hx ?_⟩
    rw [List.mem_singleton] at hb
    rwa [← hb, ← e]

theorem nodup_addAllNew {α : Type} [DecidableEq α] {xs : List α} (h : xs.Nodup) (ys : List α) :
    (addAllNew xs ys).Nodup := by
  unfold addAllNew
  induction ys generalizing xs with
  | nil => exact h
  | cons x ys ih => exact ih (nodup_addNew h x)

/-- A union of characters, closed ranges and named classes. -/
structure CharSet where
  /-- The explicit characters. -/
  chars : List Char
  /-- The ranges, as pairs of their first and last character. -/
  ranges : List (Char × Char)
  /-- The named classes. -/
  classes : List PosixClass
  deriving DecidableEq, Repr, Inhabited

namespace CharSet

/-- Something that a set can take in. -/
inductive Item where
  | char (c : Char)
  | chars (cs : List Char)
  | range (lo hi : Char)
  | posix (k : PosixClass)
  | set (s : CharSet)
  deriving DecidableEq, Repr

/-- The set of nothing at all. -/
def empty : CharSet := ⟨[], [], []⟩

/-- A set takes in an item: what is new goes to the end of its list.

    A range of one character is that character; a range whose ends are in the wrong order is kept
    as it is. -/
def adjoin (s : CharSet) : Item → CharSet
  | .char c => { s with chars := addNew s.chars c }
  | .chars cs => { s with chars := addAllNew s.chars cs }
  | .range lo hi =>
    if lo = hi then { s with chars := addNew s.chars lo }
    else { s with ranges := addNew s.ranges (lo, hi) }
  | .posix k => { s with classes := addNew s.classes k }
  | .set t =>
    { chars := addAllNew s.chars t.chars
      ranges := addAllNew s.ranges t.ranges
      classes := addAllNew s.classes t.classes }

/-- A set takes in all of another one. -/
def union (s t : CharSet) : CharSet :=
  s.adjoin (.set t)

/-- The set of one item. -/
def of (item : Item) : CharSet :=
  empty.adjoin item

/-- Whether a set has no members of any sort. -/
def isEmpty (s : CharSet) : Bool :=
  s.chars.isEmpty && s.ranges.isEmpty && s.classes.isEmpty

/-- The character of a set that is written as one character and nothing else. -/
def singleChar? (s : CharSet) : Option Char :=
  match s.chars, s.ranges, s.classes with
  | [c], [], [] => some c
  | _, _, _ => none

/-- The class of a set that is written as one class and nothing else. -/
def singleClass? (s : CharSet) : Option PosixClass :=
  match s.chars, s.ranges, s.classes with
  | [], [], [k] => some k
  | _, _, _ => none

theorem isEmpty_eq_true_iff {s : CharSet} : s.isEmpty = true ↔ s = empty := by
  cases s
  simp [isEmpty, empty, and_assoc]

theorem singleChar?_eq_some_iff {s : CharSet} {c : Char} :
    s.singleChar? = some c ↔ s = ⟨[c], [], []⟩ := by
  obtain ⟨chars, ranges, classes⟩ := s
  unfold singleChar?
  split <;> simp_all

theorem singleClass?_eq_some_iff {s : CharSet} {k : PosixClass} :
    s.singleClass? = some k ↔ s = ⟨[], [], [k]⟩ := by
  obtain ⟨chars, ranges, classes⟩ := s
  unfold singleClass?
  split <;> simp_all

end CharSet

end RegexDialects
