import RegexDialects.CharSet.Basic

/-!
# What a plain set holds

Which characters belong to a set, once it is known which belong to each named class: `named` is that
knowledge, and nothing here depends on it. `holds_adjoin` is the view of `CharSet` that proofs use:
taking in an item adds exactly the characters of the item.
-/

set_option autoImplicit false

namespace RegexDialects.CharSet

variable {named : PosixClass → Char → Prop} {s t : CharSet} {c : Char}

/-- `c` is a character of `s`, lies in one of its ranges, or belongs to one of its classes. -/
def Holds (named : PosixClass → Char → Prop) (s : CharSet) (c : Char) : Prop :=
  c ∈ s.chars ∨ (∃ r ∈ s.ranges, r.1 ≤ c ∧ c ≤ r.2) ∨ ∃ k ∈ s.classes, named k c

/-- `c` is one of the characters that an item stands for. -/
def Item.Holds (named : PosixClass → Char → Prop) : Item → Char → Prop
  | .char d, c => c = d
  | .chars ds, c => c ∈ ds
  | .range lo hi, c => lo ≤ c ∧ c ≤ hi
  | .posix k, c => named k c
  | .set s, c => s.Holds named c

theorem not_holds_empty : ¬ empty.Holds named c := by
  simp [Holds, empty]

/-- A set that takes in an item holds what it held, and what the item stands for. -/
theorem holds_adjoin {i : Item} :
    (s.adjoin i).Holds named c ↔ s.Holds named c ∨ i.Holds named c := by
  cases i with
  | char d => simp only [adjoin, Holds, Item.Holds, mem_addNew]; grind
  | chars ds => simp only [adjoin, Holds, Item.Holds, mem_addAllNew]; grind
  | range lo hi =>
    simp only [adjoin, Item.Holds]
    split
    · next h =>
      subst h
      have : c = lo ↔ lo ≤ c ∧ c ≤ lo :=
        ⟨fun h => h ▸ ⟨Char.le_refl _, Char.le_refl _⟩, fun h => Char.le_antisymm h.2 h.1⟩
      simp only [Holds, mem_addNew, this]
      grind
    · simp only [Holds, mem_addNew, or_and_right, exists_or, exists_eq_left]
      grind
  | posix k => simp only [adjoin, Holds, Item.Holds, mem_addNew]; grind
  | set t => simp only [adjoin, Holds, Item.Holds, mem_addAllNew]; grind

theorem holds_of {i : Item} : (of i).Holds named c ↔ i.Holds named c := by
  simp only [of, holds_adjoin, not_holds_empty, false_or]

/-- A union of sets holds what one of them holds. -/
theorem holds_union : (s.union t).Holds named c ↔ s.Holds named c ∨ t.Holds named c :=
  holds_adjoin

theorem holds_foldl_union {l : List CharSet} :
    (l.foldl union s).Holds named c ↔ s.Holds named c ∨ ∃ t ∈ l, t.Holds named c := by
  induction l generalizing s with
  | nil => simp
  | cons t l ih => simp only [List.foldl_cons, ih, holds_union, List.mem_cons]; grind

end RegexDialects.CharSet
