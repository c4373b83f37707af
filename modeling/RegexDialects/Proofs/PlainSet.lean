import RegexDialects.CharSet.Basic

/-!
# Sets that were built by adjoining

`CharSet` is a record of three lists and holds any lists at all. The sets that occur are built from
the empty one by adjoining (`CharSet.Built`), and those are *tidy*: no list repeats a member, and no
range is a single character in disguise.

A tidy set is determined by its items: taking them in one after the other, in the order in which
they are written, gives the set back (`foldl_union_items`).
-/

set_option autoImplicit false

namespace RegexDialects

/-! ## Lists without repetitions -/

section Lists

variable {α : Type} [DecidableEq α]

theorem addNew_of_mem {xs : List α} {x : α} (h : x ∈ xs) : addNew xs x = xs :=
  if_pos h

theorem addNew_of_not_mem {xs : List α} {x : α} (h : x ∉ xs) : addNew xs x = xs ++ [x] :=
  if_neg h

@[simp] theorem addAllNew_nil (xs : List α) : addAllNew xs [] = xs := rfl

theorem addAllNew_append (xs ys zs : List α) :
    addAllNew xs (ys ++ zs) = addAllNew (addAllNew xs ys) zs :=
  List.foldl_append

/-- Adding what a list with one more member has is adding the list, and then the member. -/
theorem addAllNew_addNew (xs ys : List α) (z : α) :
    addAllNew xs (addNew ys z) = addNew (addAllNew xs ys) z := by
  by_cases h : z ∈ ys
  · rw [addNew_of_mem h, addNew_of_mem (mem_addAllNew.2 (Or.inr h))]
  · rw [addNew_of_not_mem h, addAllNew_append]
    rfl

theorem addAllNew_assoc (xs ys zs : List α) :
    addAllNew xs (addAllNew ys zs) = addAllNew (addAllNew xs ys) zs := by
  induction zs generalizing ys with
  | nil => rfl
  | cons z zs ih =>
    show addAllNew xs (addAllNew (addNew ys z) zs) = addAllNew (addNew (addAllNew xs ys) z) zs
    rw [ih, addAllNew_addNew]

/-- What repeats nothing is added as it is. -/
theorem addAllNew_of_nodup {xs ys : List α} (h : (xs ++ ys).Nodup) : addAllNew xs ys = xs ++ ys := by
  induction ys generalizing xs with
  | nil => simp
  | cons y ys ih =>
    have hy : y ∉ xs := by
      intro hx
      exact (List.nodup_append.1 h).2.2 y hx y List.mem_cons_self rfl
    show addAllNew (addNew xs y) ys = xs ++ y :: ys
    rw [addNew_of_not_mem hy, ih (by simpa using h), List.append_assoc]
    rfl

theorem nil_addAllNew {ys : List α} (h : ys.Nodup) : addAllNew [] ys = ys :=
  addAllNew_of_nodup h

end Lists

namespace CharSet

/-! ## Tidy sets -/

/-- A set whose lists repeat nothing, and whose ranges have two different ends. -/
structure Tidy (s : CharSet) : Prop where
  chars : s.chars.Nodup
  ranges : s.ranges.Nodup
  classes : s.classes.Nodup
  ends : ∀ r ∈ s.ranges, r.1 ≠ r.2

/-- A set that was put together by adjoining items, sets among them. -/
inductive Built : CharSet → Prop
  | empty : Built .empty
  | adjoin {s : CharSet} {i : Item} :
      Built s → (∀ t, i = .set t → Built t) → Built (s.adjoin i)

theorem tidy_empty : Tidy empty := by
  refine ⟨List.nodup_nil, List.nodup_nil, List.nodup_nil, ?_⟩
  intro r hr
  exact absurd hr List.not_mem_nil

/-- What is adjoined to a tidy set leaves it tidy. -/
theorem Tidy.adjoin {s : CharSet} (hs : s.Tidy) {i : Item} (hi : ∀ t, i = .set t → t.Tidy) :
    (s.adjoin i).Tidy := by
  cases i with
  | char c => exact ⟨nodup_addNew hs.chars c, hs.ranges, hs.classes, hs.ends⟩
  | chars cs => exact ⟨nodup_addAllNew hs.chars cs, hs.ranges, hs.classes, hs.ends⟩
  | range lo up =>
    simp only [CharSet.adjoin]
    by_cases h : lo = up
    · -- A range of one character is taken in as the character.
      rw [if_pos h]
      exact ⟨nodup_addNew hs.chars lo, hs.ranges, hs.classes, hs.ends⟩
    · rw [if_neg h]
      refine ⟨hs.chars, nodup_addNew hs.ranges _, hs.classes, ?_⟩
      intro r hr
      rcases mem_addNew.1 hr with hr | rfl
      · exact hs.ends r hr
      · exact h
  | posix k => exact ⟨hs.chars, hs.ranges, nodup_addNew hs.classes k, hs.ends⟩
  | set t =>
    have ht := hi t rfl
    refine ⟨nodup_addAllNew hs.chars _, nodup_addAllNew hs.ranges _, nodup_addAllNew hs.classes _,
      ?_⟩
    intro r hr
    exact (mem_addAllNew.1 hr).elim (hs.ends r) (ht.ends r)

theorem Tidy.union {s t : CharSet} (hs : s.Tidy) (ht : t.Tidy) : (s.union t).Tidy := by
  apply hs.adjoin
  intro u hu
  cases hu
  exact ht

/-- **Sets that occur are tidy.** -/
theorem Built.tidy {s : CharSet} (h : s.Built) : s.Tidy := by
  induction h with
  | empty => exact tidy_empty
  | adjoin _ _ hs hi => exact hs.adjoin hi

/-! ## Unions -/

theorem union_assoc (s t u : CharSet) : s.union (t.union u) = (s.union t).union u := by
  simp [union, adjoin, addAllNew_assoc]

theorem empty_union {s : CharSet} (h : s.Tidy) : empty.union s = s := by
  simp [union, adjoin, empty, nil_addAllNew, h.chars, h.ranges, h.classes]

/-- The union with the set of an item takes in the item. -/
theorem union_of (s : CharSet) (i : Item) : s.union (of i) = s.adjoin i := by
  cases i with
  | char c => rfl
  | chars cs => simp [union, of, adjoin, empty, addAllNew_assoc]
  | range lo hi =>
    by_cases h : lo = hi
    · subst h
      simp [union, of, adjoin, empty, addAllNew, addNew]
    · simp [union, of, adjoin, empty, addAllNew, addNew, h]
  | posix k => rfl
  | set t => simp [union, of, adjoin, empty, addAllNew_assoc]

theorem tidy_of {i : Item} (hi : ∀ t, i = .set t → t.Tidy) : (of i).Tidy :=
  tidy_empty.adjoin hi

/-! ## The items of a set -/

/-- The items that a set is written as: its characters, then its ranges, then its classes. -/
def items (s : CharSet) : List Item :=
  s.chars.map .char ++ s.ranges.map (fun r => .range r.1 r.2) ++ s.classes.map .posix

theorem items_ne_nil {s : CharSet} (h : s ≠ empty) : s.items ≠ [] := by
  intro hi
  simp only [items, List.append_eq_nil_iff, List.map_eq_nil_iff] at hi
  obtain ⟨⟨hc, hr⟩, hk⟩ := hi
  apply h
  obtain ⟨chars, ranges, classes⟩ := s
  simp only at hc hr hk
  rw [hc, hr, hk, empty]

theorem foldl_adjoin_chars (s : CharSet) (cs : List Char) :
    (cs.map Item.char).foldl adjoin s = { s with chars := addAllNew s.chars cs } := by
  induction cs generalizing s with
  | nil => rfl
  | cons c cs ih => exact ih _

/-- Ranges with two ends are kept as ranges. -/
theorem foldl_adjoin_ranges (s : CharSet) {rs : List (Char × Char)} (h : ∀ r ∈ rs, r.1 ≠ r.2) :
    (rs.map fun r => Item.range r.1 r.2).foldl adjoin s =
      { s with ranges := addAllNew s.ranges rs } := by
  induction rs generalizing s with
  | nil => rfl
  | cons r rs ih =>
    rw [List.map_cons, List.foldl_cons, ih _ fun r hr => h r (List.mem_cons_of_mem _ hr)]
    simp [adjoin, h r List.mem_cons_self, addAllNew]

theorem foldl_adjoin_classes (s : CharSet) (ks : List PosixClass) :
    (ks.map Item.posix).foldl adjoin s = { s with classes := addAllNew s.classes ks } := by
  induction ks generalizing s with
  | nil => rfl
  | cons k ks ih => exact ih _

/-- A tidy set is what its items make. -/
theorem foldl_adjoin_items {s : CharSet} (h : s.Tidy) : s.items.foldl adjoin empty = s := by
  rw [items, List.foldl_append, List.foldl_append, foldl_adjoin_chars,
    foldl_adjoin_ranges _ h.ends, foldl_adjoin_classes]
  simp [empty, nil_addAllNew, h.chars, h.ranges, h.classes]

/-- Uniting the sets of items is taking in the items. -/
theorem foldl_union_of (l : List Item) (s : CharSet) :
    (l.map of).foldl union s = l.foldl adjoin s := by
  induction l generalizing s with
  | nil => rfl
  | cons i l ih => rw [List.map_cons, List.foldl_cons, List.foldl_cons, union_of, ih]

/-- The same for the sets of the items. -/
theorem foldl_union_items {s : CharSet} (h : s.Tidy) :
    (s.items.map of).foldl union empty = s := by
  rw [foldl_union_of, foldl_adjoin_items h]

end CharSet

end RegexDialects
