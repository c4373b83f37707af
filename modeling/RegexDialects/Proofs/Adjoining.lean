import Mathlib.Data.List.Induction
import RegexDialects.CharSet.Membership
import RegexDialects.Proofs.PlainSet

/-!
# What a set keeps of the items it took in

Every item names characters, ranges and classes, and a set that takes it in adds these to its three
lists, each where it is new (`adjoin_eq`). So of everything that the items of a set named, in the
order in which they came, the set keeps the first of each (`foldl_adjoin_eq`): no member twice, in
the order of first insertion, and the same members in whatever order the items come.

Which characters belong to the set is a matter of its items alone (`holds_foldl_adjoin`).
-/

set_option autoImplicit false

namespace RegexDialects

/-! ## Keeping the first of each -/

section Lists

variable {α : Type} [DecidableEq α]

/-- Nothing is added that is there. -/
theorem addAllNew_of_subset {xs ys : List α} (h : ys ⊆ xs) : addAllNew xs ys = xs := by
  induction ys with
  | nil => rfl
  | cons y ys ih =>
    show addAllNew (addNew xs y) ys = xs
    rw [addNew_of_mem (h List.mem_cons_self)]
    exact ih fun x hx => h (List.mem_cons_of_mem _ hx)

variable [BEq α] [LawfulBEq α]

/-- Adding members to nothing keeps the first of each. -/
theorem nil_addAllNew_eq_eraseDups (ys : List α) : addAllNew [] ys = ys.eraseDups := by
  induction ys using List.reverseRecOn with
  | nil => rfl
  | append_singleton ys y ih =>
    rw [addAllNew_append, ih, List.eraseDups_append]
    show addNew ys.eraseDups y = _
    by_cases h : y ∈ ys
    · rw [addNew_of_mem (List.mem_eraseDups.2 h)]
      simp [List.removeAll, h]
    · rw [addNew_of_not_mem fun hm => h (List.mem_eraseDups.1 hm)]
      simp [List.removeAll, List.eraseDups_cons, h]

theorem nodup_eraseDups (ys : List α) : ys.eraseDups.Nodup := by
  rw [← nil_addAllNew_eq_eraseDups]
  exact nodup_addAllNew List.nodup_nil ys

/-- The first of each, in another order, are the same members. -/
theorem perm_eraseDups {xs ys : List α} (h : xs.Perm ys) : xs.eraseDups.Perm ys.eraseDups := by
  refine (List.perm_ext_iff_of_nodup (nodup_eraseDups xs) (nodup_eraseDups ys)).2 ?_
  intro x
  rw [List.mem_eraseDups, List.mem_eraseDups]
  exact h.mem_iff

end Lists

namespace CharSet

/-! ## What an item names -/

/-- The characters that an item names. A range of one character names that character. -/
def Item.letters : Item → List Char
  | .char c => [c]
  | .chars cs => cs
  | .range lo hi => if lo = hi then [lo] else []
  | .posix _ => []
  | .set s => s.chars

/-- The ranges that an item names. -/
def Item.spans : Item → List (Char × Char)
  | .range lo hi => if lo = hi then [] else [(lo, hi)]
  | .set s => s.ranges
  | _ => []

/-- The classes that an item names. -/
def Item.names : Item → List PosixClass
  | .posix k => [k]
  | .set s => s.classes
  | _ => []

/-- A set that takes in an item adds what the item names, where it is new. -/
theorem adjoin_eq (s : CharSet) (i : Item) :
    s.adjoin i = ⟨addAllNew s.chars i.letters, addAllNew s.ranges i.spans,
      addAllNew s.classes i.names⟩ := by
  cases i with
  | range lo hi =>
    simp only [adjoin, Item.letters, Item.spans, Item.names]
    split <;> rfl
  | _ => rfl

theorem foldl_adjoin_eq (s : CharSet) (items : List Item) :
    items.foldl adjoin s = ⟨addAllNew s.chars (items.flatMap Item.letters),
      addAllNew s.ranges (items.flatMap Item.spans),
      addAllNew s.classes (items.flatMap Item.names)⟩ := by
  induction items generalizing s with
  | nil => rfl
  | cons i items ih =>
    rw [List.foldl_cons, ih, adjoin_eq]
    simp only [List.flatMap_cons, addAllNew_append]

/-! ## Sets from items -/

/-- A set that took in items holds what it held, and what one of the items stands for. -/
theorem holds_foldl_adjoin {named : PosixClass → Char → Prop} {s : CharSet} {items : List Item}
    {c : Char} :
    (items.foldl adjoin s).Holds named c ↔ s.Holds named c ∨ ∃ i ∈ items, i.Holds named c := by
  induction items generalizing s with
  | nil => simp
  | cons i items ih =>
    rw [List.foldl_cons, ih, holds_adjoin, or_assoc]
    simp only [List.mem_cons, exists_eq_or_imp]

theorem built_foldl_adjoin {items : List Item} (hi : ∀ t, .set t ∈ items → t.Built)
    {s : CharSet} (hs : s.Built) : (items.foldl adjoin s).Built := by
  induction items generalizing s with
  | nil => exact hs
  | cons i items ih =>
    refine ih (fun t ht => hi t (List.mem_cons_of_mem _ ht)) (.adjoin hs ?_)
    rintro t rfl
    exact hi t List.mem_cons_self

/-- Taking in an item again changes nothing. -/
theorem adjoin_of_mem {items : List Item} {i : Item} (h : i ∈ items) (s : CharSet) :
    (items.foldl adjoin s).adjoin i = items.foldl adjoin s := by
  have hmem : ∀ {α : Type} [DecidableEq α] (f : Item → List α) (xs : List α),
      f i ⊆ addAllNew xs (items.flatMap f) := by
    intro α _ f xs x hx
    exact mem_addAllNew.2 (Or.inr (List.mem_flatMap.2 ⟨i, h, hx⟩))
  rw [foldl_adjoin_eq, adjoin_eq]
  simp only [addAllNew_of_subset (hmem _ _)]

theorem union_self (s : CharSet) : s.union s = s := by
  rw [union, adjoin_eq]
  simp only [Item.letters, Item.spans, Item.names, addAllNew_of_subset (List.Subset.refl _)]

/-- **A set is the union of its items.** Of what the items name it keeps the first of each, in the
    order in which they came; so it repeats nothing, no range of it is a single character, and the
    same items in another order make the same members in another order. It holds what one of the
    items stands for, under every reading of the classes, and taking one of them in again changes
    nothing. Taking in sets is associative and idempotent. -/
theorem union_of_items :
    (∀ items : List Item, (∀ t, .set t ∈ items → t.Built) →
      (items.foldl adjoin empty).Tidy ∧
        items.foldl adjoin empty = ⟨(items.flatMap Item.letters).eraseDups,
          (items.flatMap Item.spans).eraseDups, (items.flatMap Item.names).eraseDups⟩ ∧
        (∀ named c, (items.foldl adjoin empty).Holds named c ↔ ∃ i ∈ items, i.Holds named c) ∧
        (∀ i ∈ items, (items.foldl adjoin empty).adjoin i = items.foldl adjoin empty) ∧
        ∀ items', items.Perm items' →
          (items.foldl adjoin empty).chars.Perm (items'.foldl adjoin empty).chars ∧
            (items.foldl adjoin empty).ranges.Perm (items'.foldl adjoin empty).ranges ∧
            (items.foldl adjoin empty).classes.Perm (items'.foldl adjoin empty).classes) ∧
    (∀ s t u : CharSet,
      s.adjoin (.set (t.adjoin (.set u))) = (s.adjoin (.set t)).adjoin (.set u)) ∧
    ∀ s : CharSet, s.adjoin (.set s) = s := by
  have hkept : ∀ items : List Item, items.foldl adjoin empty =
      ⟨(items.flatMap Item.letters).eraseDups, (items.flatMap Item.spans).eraseDups,
        (items.flatMap Item.names).eraseDups⟩ := by
    intro items
    rw [foldl_adjoin_eq]
    simp only [empty, nil_addAllNew_eq_eraseDups]
  refine ⟨?_, union_assoc, union_self⟩
  intro items hi
  refine ⟨(built_foldl_adjoin hi .empty).tidy, hkept items, ?_, ?_, ?_⟩
  · intro named c
    rw [holds_foldl_adjoin, or_iff_right not_holds_empty]
  · intro i h
    exact adjoin_of_mem h empty
  · intro items' hp
    rw [hkept items, hkept items']
    refine ⟨?_, ?_, ?_⟩ <;> exact perm_eraseDups (hp.flatMap_right _)

/-- A range of one character comes first, and its character again in a set; a range with its ends in
    the wrong order is kept, and holds nothing. -/
theorem union_of_items_repeated :
    let s := (empty.adjoin (.range 'z' 'x')).adjoin (.chars ['c', 'b'])
    let items : List Item := [.range 'b' 'b', .posix .digit, .set s, .range 'a' 'c', .char 'c']
    (∀ t, .set t ∈ items → t.Built) ∧
      items.foldl adjoin empty = ⟨['b', 'c'], [('z', 'x'), ('a', 'c')], [.digit]⟩ ∧
      ((items.foldl adjoin empty).Holds (fun _ _ => False) 'y' ↔
        ∃ i ∈ items, i.Holds (fun _ _ => False) 'y') ∧
      items.Perm items.reverse ∧
      (items.foldl adjoin empty).ranges.Perm (items.reverse.foldl adjoin empty).ranges ∧
      (items.reverse.foldl adjoin empty).ranges = [('a', 'c'), ('z', 'x')] := by
  intro s items
  have hi : ∀ t, .set t ∈ items → t.Built := by
    intro t ht
    simp only [items, List.mem_cons, reduceCtorEq, Item.set.injEq, List.not_mem_nil, or_false,
      false_or] at ht
    subst ht
    exact .adjoin (.adjoin .empty nofun) nofun
  obtain ⟨-, -, hholds, -, hperm⟩ := union_of_items.1 items hi
  have hreverse : items.Perm items.reverse := (List.reverse_perm items).symm
  exact ⟨hi, rfl, hholds _ 'y', hreverse, (hperm _ hreverse).2.1, rfl⟩

end CharSet

end RegexDialects
