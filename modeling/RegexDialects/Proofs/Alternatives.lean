import RegexDialects.Proofs.Construction

/-!
# What holds of one of several trees

A choice and a union rearrange what they are given: branches are opened, dropped and folded into a
set. None of that matters to a property that a choice has because one of its branches has it, and
that can be read off the members of a plain set (`Distributes`): such a property holds of a choice
or a union that is built if and only if it holds of one of the trees that went in.

To match a character is such a property, and to match a text is another.
-/

set_option autoImplicit false

namespace RegexDialects.Regex

/-- Whether a property of trees distributes over alternatives. -/
structure Distributes (M : Regex → Prop) : Prop where
  choice : ∀ l, M (.choice l) ↔ ∃ e ∈ l, M e
  plain : ∀ {e s}, e.plainSet? = some s → (M e ↔ M (.set s))
  fail : ¬ M fail
  union : ∀ s t : CharSet, M (.set (s.union t)) ↔ M (.set s) ∨ M (.set t)

variable {M : Regex → Prop}

theorem Distributes.foldl_union (hM : Distributes M) (s : CharSet) (sets : List CharSet) :
    M (.set (sets.foldl .union s)) ↔ M (.set s) ∨ ∃ t ∈ sets, M (.set t) := by
  induction sets generalizing s with
  | nil => simp
  | cons t sets ih => simp [ih, hM.union, or_assoc]

/-! ## Choices -/

theorem Distributes.branches (hM : Distributes M) (e : Regex) : (∃ b ∈ e.branches, M b) ↔ M e := by
  by_cases hf : e = Regex.fail
  · rw [hf, branches_fail]
    exact ⟨fun ⟨b, hb, _⟩ => absurd hb List.not_mem_nil, fun h => (hM.fail h).elim⟩
  · cases hc : e.isChoice with
    | true =>
      cases e <;> simp [isChoice] at hc
      exact (hM.choice _).symm
    | false =>
      rw [branches_of_ne hc hf]
      simp

theorem Distributes.ofBranches (hM : Distributes M) (l : List Regex) :
    M (ofBranches l) ↔ ∃ e ∈ l, M e := by
  match l with
  | [] => exact ⟨fun h => (hM.fail h).elim, fun ⟨e, he, _⟩ => absurd he List.not_mem_nil⟩
  | [e] => simp [Regex.ofBranches]
  | e :: f :: l =>
    cases hm : (e :: f :: l).mapM plainSet? with
    | none =>
      rw [ofBranches_of_not_plain hm]
      exact hM.choice _
    | some sets =>
      -- Branches that are all plain have become one set.
      rw [ofBranches_of_plain hm, hM.foldl_union]
      generalize e :: f :: l = l at hm
      constructor
      · rintro (h | ⟨s, hs, h⟩)
        · exact (hM.fail h).elim
        · obtain ⟨x, hx, hxs⟩ := exists_mem_of_mapM hm hs
          exact ⟨x, hx, (hM.plain hxs).2 h⟩
      · rintro ⟨x, hx, h⟩
        obtain ⟨s, hs, hxs⟩ := exists_plainSet?_of_mapM hm hx
        exact Or.inr ⟨s, hs, (hM.plain hxs).1 h⟩

/-- A choice that is built has the property if one of its branches has it. -/
theorem Distributes.alt (hM : Distributes M) (l : List Regex) : M (alt l) ↔ ∃ e ∈ l, M e := by
  rw [alt_eq_ofBranches, hM.ofBranches]
  constructor
  · rintro ⟨b, hb, h⟩
    obtain ⟨e, he, hb⟩ := List.mem_flatMap.1 hb
    exact ⟨e, he, (hM.branches e).1 ⟨b, hb, h⟩⟩
  · rintro ⟨e, he, h⟩
    obtain ⟨b, hb, h⟩ := (hM.branches e).2 h
    exact ⟨b, List.mem_flatMap.2 ⟨e, he, hb⟩, h⟩

/-! ## Unions -/

/-- The operands of a union are its plain ones, and its symbolic ones before and after the first
    of these. -/
theorem mem_of_union {l : List Regex} {s : CharSet} {sets : List CharSet}
    (h : l.filterMap plainSet? = s :: sets) {e : Regex} :
    e ∈ l ↔ (∃ t ∈ s :: sets, e.plainSet? = some t ∧ e ∈ l) ∨
      e ∈ l.takeWhile isSymbolic ∨ e ∈ (l.dropWhile isSymbolic).filter isSymbolic := by
  constructor
  · intro he
    cases hs : e.plainSet? with
    | some t =>
      refine Or.inl ⟨t, ?_, rfl, he⟩
      rw [← h]
      exact List.mem_filterMap.2 ⟨e, he, hs⟩
    | none =>
      refine Or.inr ?_
      have hsym : e.isSymbolic = true := by rw [isSymbolic, hs]; rfl
      rw [← List.takeWhile_append_dropWhile (p := isSymbolic) (l := l)] at he
      exact (List.mem_append.1 he).imp_right fun he => List.mem_filter.2 ⟨he, hsym⟩
  · rintro (⟨_, _, _, he⟩ | he | he)
    · exact he
    · exact (List.takeWhile_prefix _).subset he
    · exact (List.dropWhile_suffix _).subset (List.mem_of_mem_filter he)

/-- A union that is built has the property if one of its operands has it. -/
theorem Distributes.unionOf (hM : Distributes M) (l : List Regex) :
    M (Regex.union l) ↔ ∃ e ∈ l, M e := by
  cases h : l.filterMap plainSet? with
  | nil => rw [union_of_filterMap_eq_nil h, hM.alt]
  | cons s sets =>
    rw [union_of_filterMap_eq_cons h, hM.alt]
    have hset : M (.set (sets.foldl .union s)) ↔ ∃ t ∈ s :: sets, M (.set t) := by
      simp [hM.foldl_union]
    constructor
    · rintro ⟨e, he, hm⟩
      rcases List.mem_append.1 he with he | he
      · exact ⟨e, (mem_of_union h).2 (Or.inr (Or.inl he)), hm⟩
      · rcases List.mem_cons.1 he with rfl | he
        · obtain ⟨t, ht, hm⟩ := hset.1 hm
          rw [← h, List.mem_filterMap] at ht
          obtain ⟨x, hx, hxt⟩ := ht
          exact ⟨x, hx, (hM.plain hxt).2 hm⟩
        · exact ⟨e, (mem_of_union h).2 (Or.inr (Or.inr he)), hm⟩
    · rintro ⟨e, he, hm⟩
      rcases (mem_of_union h).1 he with ⟨t, ht, het, -⟩ | he | he
      · exact ⟨_, List.mem_append.2 (Or.inr List.mem_cons_self),
          hset.2 ⟨t, ht, (hM.plain het).1 hm⟩⟩
      · exact ⟨e, List.mem_append.2 (Or.inl he), hm⟩
      · exact ⟨e, List.mem_append.2 (Or.inr (List.mem_cons_of_mem _ he)), hm⟩

end RegexDialects.Regex
