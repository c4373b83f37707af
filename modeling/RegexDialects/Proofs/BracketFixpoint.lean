import Mathlib.Data.List.TakeWhile
import RegexDialects.Proofs.Invariant
import RegexDialects.Proofs.ReadBackShape
import RegexDialects.Proofs.RoundTrip
import RegexDialects.Proofs.Writable

/-!
# What a bracket expression is read as is read as that again

A bracket expression forgets how the tree was put together that it was written for, so the tree that
it is read as may be another one. That tree, however, can be written again, and then it is read as
itself, or as what a plain set in its place is read as. This is so for the unions that bracket
expressions stand for (`alt_of_isBlock`, `bracketUnion_of_isBlock`), and for the conjunctions that
negated ones stand for (`exists_bracketExclusion`).

Whether something can be written is, between brackets, a matter of the named classes in it only
(`Member.InPcre`).
-/

set_option autoImplicit false

namespace RegexDialects

/-- Whether PCRE knows all classes of a set. -/
def CharSet.InPcre (s : CharSet) : Prop :=
  ∀ k ∈ s.classes, k.inPcre = true

/-- Whether PCRE knows the class of a member, if it has one. -/
def Pattern.Member.InPcre : Member → Prop
  | item i => (CharSet.of i).InPcre
  | except k => k.inPcre = true

namespace Regex

open Form.Pcre Pattern

/-! ## What can be written -/

theorem classItems_ok_iff {l : List PosixClass} :
    (∃ text, classItems l = .ok text) ↔ ∀ k ∈ l, k.inPcre = true := by
  induction l with
  | nil => exact ⟨fun _ _ h => absurd h List.not_mem_nil, fun _ => ⟨[], rfl⟩⟩
  | cons k l ih =>
    rw [List.forall_mem_cons, ← ih, classItems, classItem]
    cases hk : k.inPcre with
    | false => simp [bind, Except.bind]
    | true => cases hl : classItems l <;> simp [bind, Except.bind, pure, Except.pure]

/-- Characters and ranges can always be written, so it is the classes that matter. -/
theorem setItems_ok_iff {s : CharSet} : (∃ text, setItems s = .ok text) ↔ s.InPcre := by
  rw [CharSet.InPcre, ← classItems_ok_iff, setItems]
  cases hk : classItems s.classes <;> simp [bind, Except.bind, pure, Except.pure]

theorem inPcre_of_shorthand? {negated : Bool} {k : PosixClass} {text : List Char}
    (h : shorthand? negated k = some text) : k.inPcre = true := by
  rcases shorthand?_eq_some h with ⟨rfl, -⟩ | ⟨rfl, -⟩ | ⟨rfl, -⟩ <;> rfl

theorem inPcre_of_bind_shorthand? {negated : Bool} {s : CharSet} {text : List Char}
    (h : s.singleClass?.bind (shorthand? negated) = some text) : s.InPcre := by
  obtain ⟨k, hk, ht⟩ := Option.bind_eq_some_iff.1 h
  rw [CharSet.singleClass?_eq_some_iff.1 hk]
  intro j hj
  rw [List.mem_singleton.1 hj]
  exact inPcre_of_shorthand? ht

/-- A set can be written if PCRE knows its classes, whichever of its forms is taken. -/
theorem writable_set {s : CharSet} : (set s).Writable ↔ s.InPcre := by
  unfold Writable
  rw [Form.Pcre.render, renderSet]
  split
  · next hs =>
    rw [CharSet.isEmpty_eq_true_iff.1 hs]
    exact ⟨fun _ k hk => absurd hk List.not_mem_nil, fun _ => ⟨_, rfl⟩⟩
  · split
    · next c hc =>
      rw [CharSet.singleChar?_eq_some_iff.1 hc]
      exact ⟨fun _ k hk => absurd hk List.not_mem_nil, fun _ => ⟨_, rfl⟩⟩
    · split
      · next t ht => exact ⟨fun _ => inPcre_of_bind_shorthand? ht, fun _ => ⟨_, rfl⟩⟩
      · rw [exists_map_eq_ok_iff, setItems_ok_iff]

theorem writable_complement_set {s : CharSet} : (complement (.set s)).Writable ↔ s.InPcre := by
  unfold Writable
  rw [Form.Pcre.render, renderComplement]
  split
  · next hs =>
    rw [CharSet.isEmpty_eq_true_iff.1 hs]
    exact ⟨fun _ k hk => absurd hk List.not_mem_nil, fun _ => ⟨_, rfl⟩⟩
  · split
    · next t ht => exact ⟨fun _ => inPcre_of_bind_shorthand? ht, fun _ => ⟨_, rfl⟩⟩
    · rw [exists_map_eq_ok_iff, setItems_ok_iff]

theorem inPcre_of_posix {k : PosixClass} : (CharSet.of (.posix k)).InPcre ↔ k.inPcre = true :=
  List.forall_mem_singleton

/-- Of the items of a set only the classes have something to be known. -/
theorem forall_mem_items_inPcre {s : CharSet} :
    (∀ m ∈ s.items.map Member.item, m.InPcre) ↔ s.InPcre := by
  rw [List.forall_mem_map]
  simp only [CharSet.items, List.forall_mem_append, List.forall_mem_map]
  constructor
  · rintro ⟨-, hk⟩ k hmem
    exact inPcre_of_posix.1 (hk k hmem)
  · intro h
    refine ⟨⟨?_, ?_⟩, ?_⟩
    · intro c _ k hk
      exact absurd hk List.not_mem_nil
    · intro r _ k hk
      simp only [CharSet.of, CharSet.adjoin] at hk
      split at hk <;> exact absurd hk List.not_mem_nil
    · intro k hk
      exact inPcre_of_posix.2 (h k hk)

theorem except_inPcre {k : PosixClass} :
    (∀ m ∈ [Member.except k], m.InPcre) ↔ k.inPcre = true :=
  List.forall_mem_singleton

/-- A tree that has a place in a bracket expression can be written there if PCRE knows its
    classes. -/
theorem bracketItem_ok_iff {negated : Bool} {e : Regex} {items : Except Unwritable (List Char)}
    (h : bracketItem negated e = some items) :
    (∃ text, items = .ok text) ↔ ∀ m ∈ e.bracketMembers negated, m.InPcre := by
  induction e using inductionOn generalizing negated with
  | complement e ih => exact ih (show bracketItem (!negated) e = _ from h)
  | set s =>
    unfold bracketItem at h
    unfold bracketMembers
    cases negated with
    | true =>
      cases hk : s.singleClass? with
      | none => simp [hk] at h
      | some k =>
        simp only [hk, if_true] at h ⊢
        rw [except_inPcre]
        cases ht : shorthand? true k with
        | some t =>
          rw [ht] at h
          cases h
          exact ⟨fun _ => inPcre_of_shorthand? ht, fun _ => ⟨_, rfl⟩⟩
        | none =>
          rw [ht] at h
          cases h
          rw [classItem]
          cases hin : k.inPcre <;> simp
    | false =>
      simp only [Bool.false_eq_true, if_false] at h ⊢
      rw [forall_mem_items_inPcre, ← setItems_ok_iff]
      split at h
      · cases h
      · cases h
        rfl
  | literal t =>
    unfold bracketItem at h
    split at h <;> try contradiction
    next heq =>
      cases heq
      cases negated <;> cases h
      simp [bracketMembers, Member.InPcre, CharSet.InPcre, CharSet.of, CharSet.adjoin,
        CharSet.empty]
  | primitive p =>
    cases p <;> try cases h
    all_goals
      cases negated <;> simp [bracketMembers, Member.InPcre, inPcre_of_posix, PosixClass.inPcre]
  | syntaxClass k =>
    cases k <;> try cases h
    all_goals
      cases negated <;> simp [bracketMembers, Member.InPcre, inPcre_of_posix, PosixClass.inPcre]
  | _ => cases h

/-- Outside of brackets as well. -/
theorem writable_iff_of_bracketItem {negated : Bool} {e : Regex} (hn : e.IsNormal)
    (h : (bracketItem negated e).isSome = true) :
    e.Writable ↔ ∀ m ∈ e.bracketMembers negated, m.InPcre := by
  cases e with
  | set s =>
    rw [writable_set]
    cases negated with
    | false => exact forall_mem_items_inPcre.symm
    | true =>
      cases hk : s.singleClass? with
      | none => simp [bracketItem, hk] at h
      | some k =>
        rw [CharSet.singleClass?_eq_some_iff.1 hk]
        exact inPcre_of_posix.trans except_inPcre.symm
  | complement e =>
    rcases isNegatable_iff.1 hn with ⟨s, rfl⟩ | ⟨k, rfl⟩ | ⟨k, rfl⟩
    · rw [writable_complement_set]
      cases negated with
      | true => exact forall_mem_items_inPcre.symm
      | false =>
        cases hk : s.singleClass? with
        | none => simp [bracketItem, hk] at h
        | some k =>
          rw [CharSet.singleClass?_eq_some_iff.1 hk]
          exact inPcre_of_posix.trans except_inPcre.symm
    · -- Only syntax classes with an escape have a place in brackets.
      have hw : (complement (.syntaxClass k)).Writable := by
        cases k <;> first | exact ⟨_, rfl⟩ | (cases negated <;> cases h)
      refine ⟨?_, fun _ => hw⟩
      intro _
      cases k <;> first | exact (bracketItem_ok_iff rfl).1 ⟨_, rfl⟩ | (cases negated <;> cases h)
    · exact Bool.noConfusion h
  | literal t =>
    refine ⟨?_, fun _ => ⟨_, rfl⟩⟩
    intro _
    match t with
    | [c] =>
      cases negated with
      | false => exact (bracketItem_ok_iff rfl).1 ⟨_, rfl⟩
      | true => exact Bool.noConfusion h
    | [] => exact Bool.noConfusion h
    | _ :: _ :: _ => exact Bool.noConfusion h
  | primitive p =>
    cases p with
    | wordChar | notWordChar =>
      exact ⟨fun _ => (bracketItem_ok_iff rfl).1 ⟨_, rfl⟩, fun _ => ⟨_, rfl⟩⟩
    | _ => exact Bool.noConfusion h
  | syntaxClass k =>
    cases k with
    | word | whitespace =>
      exact ⟨fun _ => (bracketItem_ok_iff rfl).1 ⟨_, rfl⟩, fun _ => ⟨_, rfl⟩⟩
    | _ => exact Bool.noConfusion h
  | _ => exact Bool.noConfusion h

/-- What is written between brackets, if it can be. -/
theorem bracketItem_ok_of_writable {negated : Bool} {e : Regex} (hn : e.IsNormal)
    (hw : e.Writable) {items : Except Unwritable (List Char)}
    (h : bracketItem negated e = some items) : ∃ text, items = .ok text :=
  (bracketItem_ok_iff h).2 ((writable_iff_of_bracketItem hn (Option.isSome_of_eq_some h)).1 hw)

theorem bracketItems_ok_of_forall {negated : Bool} {l : List Regex}
    (h : ∀ e ∈ l, ∃ text, bracketItem negated e = some (.ok text)) :
    ∃ text, bracketItems negated l = some (.ok text) := by
  induction l with
  | nil => exact ⟨[], rfl⟩
  | cons e l ih =>
    obtain ⟨t, ht⟩ := h e List.mem_cons_self
    have hl : ∀ x ∈ l, ∃ text, bracketItem negated x = some (.ok text) := by
      intro x hx
      exact h x (List.mem_cons_of_mem _ hx)
    obtain ⟨u, hu⟩ := ih hl
    refine ⟨t ++ u, ?_⟩
    rw [bracketItems, ht, hu]
    rfl

/-- A list can be written between brackets if each of it can. -/
theorem bracketItems_ok_of_writable {negated : Bool} {l : List Regex}
    (hn : ∀ e ∈ l, e.IsNormal) (hw : ∀ e ∈ l, e.Writable)
    (h : ∀ e ∈ l, (bracketItem negated e).isSome = true) :
    ∃ text, bracketItems negated l = some (.ok text) := by
  apply bracketItems_ok_of_forall
  intro e he
  obtain ⟨items, hitems⟩ := Option.isSome_iff_exists.1 (h e he)
  obtain ⟨text, rfl⟩ := bracketItem_ok_of_writable (hn e he) (hw e he) hitems
  exact ⟨text, hitems⟩

theorem inPcre_of_bracketItems {negated : Bool} {l : List Regex} {text : List Char}
    (h : bracketItems negated l = some (.ok text)) :
    ∀ m ∈ l.flatMap (bracketMembers negated), m.InPcre := by
  intro m hm
  obtain ⟨e, he, hm⟩ := List.mem_flatMap.1 hm
  obtain ⟨t, ht⟩ := bracketItem_of_bracketItems h he
  exact (bracketItem_ok_iff ht).1 ⟨t, rfl⟩ m hm

/-! ## Unions -/

/-- Whether a tree is the complement of a named class. -/
def IsExcept (e : Regex) : Prop :=
  ∃ k, e = (Member.except k).tree

/-- Whether branches are such as a union of members has: complements of named classes, and at most
    one set. -/
def IsBlock (l : List Regex) : Prop :=
  (∀ e ∈ l, IsExcept e) ∨
    ∃ before s after, l = before ++ .set s :: after ∧ (∀ e ∈ before, IsExcept e) ∧
      (∀ e ∈ after, IsExcept e) ∧ s.Tidy ∧ s ≠ .empty

theorem IsExcept.isSymbolic {e : Regex} (h : IsExcept e) : isSymbolic e = true := by
  obtain ⟨k, rfl⟩ := h
  rfl

/-- A branch is the complement of a named class or a set. -/
theorem IsBlock.mem {l : List Regex} (h : IsBlock l) {e : Regex} (he : e ∈ l) :
    IsExcept e ∨ ∃ s, e = .set s ∧ s ≠ .empty := by
  rcases h with h | ⟨before, s, after, rfl, hb, ha, -, hs⟩
  · exact Or.inl (h e he)
  · rcases List.mem_append.1 he with he | he
    · exact Or.inl (hb e he)
    · rcases List.mem_cons.1 he with rfl | he
      · exact Or.inr ⟨s, rfl, hs⟩
      · exact Or.inl (ha e he)

theorem IsBlock.isNormal {l : List Regex} (h : IsBlock l) {e : Regex} (he : e ∈ l) :
    e.IsNormal ∧ e.isChoice = false ∧ e ≠ fail := by
  rcases h.mem he with ⟨k, rfl⟩ | ⟨s, rfl, hs⟩
  · exact ⟨rfl, rfl, nofun⟩
  · exact ⟨trivial, rfl, fun h => hs (Regex.set.inj h)⟩

theorem IsBlock.isSome_bracketItem {l : List Regex} (h : IsBlock l) {e : Regex} (he : e ∈ l) :
    (bracketItem false e).isSome = true := by
  rcases h.mem he with ⟨k, rfl⟩ | ⟨s, rfl, hs⟩
  · cases k <;> rfl
  · simp [bracketItem, CharSet.isEmpty_eq_true_iff, hs]

/-- Branches of a block are one branch or a choice. -/
theorem alt_of_isBlock {l : List Regex} (h : IsBlock l) (hn : l ≠ []) :
    (∃ e, l = [e] ∧ alt l = e) ∨ alt l = .choice l := by
  match l with
  | [] => exact absurd rfl hn
  | [e] => exact Or.inl ⟨e, rfl, alt_singleton (h.isNormal List.mem_cons_self).1⟩
  | e :: f :: l =>
    refine Or.inr (alt_of_isNormal ⟨by simp, fun x hx => (h.isNormal hx).2, ?_⟩)
    have hexcept : ∃ x ∈ e :: f :: l, IsExcept x := by
      rcases h with h | ⟨before, s, after, heq, hb, ha, -⟩
      · exact ⟨e, List.mem_cons_self, h e List.mem_cons_self⟩
      · rw [heq]
        -- There are two branches, and one of them is not the set.
        cases before with
        | cons x before =>
          exact ⟨x, List.mem_cons_self, hb x List.mem_cons_self⟩
        | nil =>
          cases after with
          | nil => simp at heq
          | cons x after => exact ⟨x, by simp, ha x List.mem_cons_self⟩
    obtain ⟨x, hx, k, rfl⟩ := hexcept
    exact ⟨_, hx, rfl⟩

/-- The complements of named classes are their own members. -/
theorem map_tree_of_isExcept {l : List Regex} (h : ∀ e ∈ l, IsExcept e) :
    (l.flatMap (bracketMembers false)).map Member.tree = l := by
  induction l with
  | nil => rfl
  | cons e l ih =>
    obtain ⟨k, rfl⟩ := h e List.mem_cons_self
    have hmembers : bracketMembers false (Member.except k).tree = [.except k] := rfl
    have hl : ∀ x ∈ l, IsExcept x := by
      intro x hx
      exact h x (List.mem_cons_of_mem _ hx)
    rw [List.flatMap_cons, List.map_append, ih hl, hmembers]
    rfl

/-- **The union of a block is its choice**: a bracket expression that is written for it is read as
    the choice again. -/
theorem bracketUnion_of_isBlock {l : List Regex} (h : IsBlock l) : bracketUnion l = alt l := by
  unfold bracketUnion
  rcases h with h | ⟨before, s, after, rfl, hb, ha, hs, hn⟩
  · rw [map_tree_of_isExcept h]
    refine union_of_filterMap_eq_nil (List.filterMap_eq_nil_iff.2 ?_)
    intro e he
    exact Option.isNone_iff_eq_none.1 (h e he).isSymbolic
  · have hmembers : bracketMembers false (.set s) = s.items.map .item := rfl
    rw [List.flatMap_append, List.flatMap_cons, List.map_append, List.map_append,
      map_tree_of_isExcept hb, map_tree_of_isExcept ha, hmembers]
    exact union_items_between hs hn (fun e he => (hb e he).isSymbolic)
      fun e he => (ha e he).isSymbolic

theorem inPcre_foldl_union {l : List CharSet} {s : CharSet} (hs : s.InPcre)
    (hl : ∀ t ∈ l, t.InPcre) : (l.foldl .union s).InPcre := by
  induction l generalizing s with
  | nil => exact hs
  | cons t l ih =>
    refine ih ?_ fun u hu => hl u (List.mem_cons_of_mem _ hu)
    intro k hk
    rcases mem_addAllNew.1 hk with hk | hk
    · exact hs k hk
    · exact hl t List.mem_cons_self k hk

/-- A union of members is the choice of a block. -/
theorem exists_isBlock {ms : List Member} (hs : ∀ m ∈ ms, m.IsSpelled) (hn : ms ≠ []) :
    ∃ l, IsBlock l ∧ l ≠ [] ∧ union (ms.map Member.tree) = alt l ∧
      ((∀ m ∈ ms, m.InPcre) → ∀ e ∈ l, e.Writable) := by
  have hsymbolic : ∀ e ∈ ms.map Member.tree, isSymbolic e = true →
      IsExcept e ∧ ((∀ m ∈ ms, m.InPcre) → e.Writable) := by
    intro e he hsym
    obtain ⟨m, hm, rfl⟩ := List.mem_map.1 he
    cases m with
    | item i => exact Bool.noConfusion hsym
    | except k =>
      exact ⟨⟨k, rfl⟩, fun hin => writable_complement_set.2 (inPcre_of_posix.2 (hin _ hm))⟩
  -- The items among the members are united into one set, if there are any.
  cases h : (ms.map Member.tree).filterMap plainSet? with
  | nil =>
    have hall : ∀ e ∈ ms.map Member.tree, isSymbolic e = true := by
      intro e he
      exact Option.isNone_iff_eq_none.2 (List.filterMap_eq_nil_iff.1 h e he)
    refine ⟨ms.map Member.tree, Or.inl fun e he => (hsymbolic e he (hall e he)).1,
      fun hnil => hn (List.map_eq_nil_iff.1 hnil), union_of_filterMap_eq_nil h,
      fun hin e he => (hsymbolic e he (hall e he)).2 hin⟩
  | cons s sets =>
    have hset : ∀ t ∈ s :: sets, readDemands.set t ∧ ((∀ m ∈ ms, m.InPcre) → t.InPcre) := by
      intro t ht
      rw [← h] at ht
      obtain ⟨e, he, het⟩ := List.mem_filterMap.1 ht
      obtain ⟨m, hm, rfl⟩ := List.mem_map.1 he
      cases m with
      | item i =>
        cases het
        exact ⟨set_readDemands_of (hs _ hm), fun hin => hin _ hm⟩
      | except k => cases het
    have hunion : readDemands.set (sets.foldl .union s) := by
      apply closed_readDemands.foldl_union (hset s List.mem_cons_self).1
      intro t ht
      exact (hset t (List.mem_cons_of_mem _ ht)).1
    -- The sets are gathered where the first of them stands.
    have hbefore : ∀ e ∈ (ms.map Member.tree).takeWhile isSymbolic,
        IsExcept e ∧ ((∀ m ∈ ms, m.InPcre) → e.Writable) := by
      intro e he
      exact hsymbolic e ((List.takeWhile_prefix _).subset he) (List.mem_takeWhile_imp he)
    have hafter : ∀ e ∈ ((ms.map Member.tree).dropWhile isSymbolic).filter isSymbolic,
        IsExcept e ∧ ((∀ m ∈ ms, m.InPcre) → e.Writable) := by
      intro e he
      exact hsymbolic e ((List.dropWhile_suffix _).subset (List.mem_of_mem_filter he))
        (List.mem_filter.1 he).2
    refine ⟨_, Or.inr ⟨_, _, _, rfl, fun e he => (hbefore e he).1, fun e he => (hafter e he).1,
      hunion.1, hunion.2.1⟩, by simp, union_of_filterMap_eq_cons h, ?_⟩
    intro hin e he
    rcases List.mem_append.1 he with he | he
    · exact (hbefore e he).2 hin
    · rcases List.mem_cons.1 he with rfl | he
      · exact writable_set.2 (inPcre_foldl_union ((hset s List.mem_cons_self).2 hin)
          fun t ht => (hset t (List.mem_cons_of_mem _ ht)).2 hin)
      · exact (hafter e he).2 hin

/-! ## Conjunctions -/

/-- Whether a tree is a set of one named class. -/
def IsClass (e : Regex) : Prop :=
  ∃ k, e = .set (.of (.posix k))

theorem required?_within (l : List Regex) :
    (l.map Conjunct.within).filterMap Conjunct.required? = l := by
  rw [List.filterMap_map]
  exact List.filterMap_some

theorem excluded?_within (l : List Regex) :
    (l.map Conjunct.within).filterMap Conjunct.excluded? = [] := by
  rw [List.filterMap_map]
  exact List.filterMap_eq_nil_iff.2 fun _ _ => rfl

theorem map_opposite_of_isClass {l : List Regex} (h : ∀ e ∈ l, IsClass e) :
    (l.flatMap (bracketMembers true)).map Member.opposite = l.map .within := by
  induction l with
  | nil => rfl
  | cons e l ih =>
    obtain ⟨k, rfl⟩ := h e List.mem_cons_self
    have hmembers : bracketMembers true (.set (.of (.posix k))) = [.except k] := rfl
    have hl : ∀ x ∈ l, IsClass x := by
      intro x hx
      exact h x (List.mem_cons_of_mem _ hx)
    rw [List.flatMap_cons, List.map_append, ih hl, hmembers]
    rfl

/-- Named classes alone are what their conjunction requires. -/
theorem bracketExclusion_of_isClass {l : List Regex} (h : ∀ e ∈ l, IsClass e)
    (hn : 2 ≤ l.length) : bracketExclusion l = .intersection l := by
  have hreq : required (l.map .within) = l := required?_within l
  have hexc : excluded (l.map .within) = .empty := by
    rw [excluded, excluded?_within]
    rfl
  have hne : required (l.map .within) ≠ [] := by
    rw [hreq]
    exact ne_nil_of_two_le_length hn
  rw [bracketExclusion, map_opposite_of_isClass h, conjunction_of_required_ne_nil hne, conjuncts,
    hreq, hexc]
  exact ofConjuncts_of_two_le hn

/-- With a complement among them, it is what their conjunction excludes, and comes last. -/
theorem bracketExclusion_around {before after : List Regex} {s : CharSet}
    (hb : ∀ e ∈ before, IsClass e) (ha : ∀ e ∈ after, IsClass e) (hs : s.Tidy) (hne : s ≠ .empty)
    (hn : before ++ after ≠ []) :
    bracketExclusion (before ++ .complement (.set s) :: after) =
      .intersection (before ++ after ++ [.complement (.set s)]) := by
  have hmembers : bracketMembers true (.complement (.set s)) = s.items.map .item := rfl
  have hconjuncts : ((before ++ .complement (.set s) :: after).flatMap (bracketMembers true)).map
      Member.opposite = before.map .within ++ ((s.items.map .item).map Member.opposite ++
        after.map .within) := by
    rw [List.flatMap_append, List.flatMap_cons, List.map_append, List.map_append,
      map_opposite_of_isClass hb, map_opposite_of_isClass ha, hmembers]
  have hreq : required (before.map .within ++ ((s.items.map .item).map Member.opposite ++
      after.map .within)) = before ++ after := by
    have hitems : ((s.items.map Member.item).map Member.opposite).filterMap Conjunct.required? =
        [] := required_items
    rw [required, List.filterMap_append, List.filterMap_append, required?_within, required?_within,
      hitems, List.nil_append]
  have hexc : excluded (before.map .within ++ ((s.items.map .item).map Member.opposite ++
      after.map .within)) = s := by
    rw [excluded, List.filterMap_append, List.filterMap_append, excluded?_within, excluded?_within,
      excluded?_items, List.nil_append, List.append_nil, CharSet.foldl_union_items hs]
  have hempty : ¬ s.isEmpty = true := by
    intro h
    exact hne (CharSet.isEmpty_eq_true_iff.1 h)
  rw [bracketExclusion, hconjuncts, conjunction_of_required_ne_nil (by rw [hreq]; exact hn),
    conjuncts, hreq, hexc, if_neg hempty]
  apply ofConjuncts_of_two_le
  rw [List.length_append]
  exact Nat.succ_le_succ (List.length_pos_iff.2 hn)

/-- **An intersection that was read is read as an intersection of the same parts**, and then as
    itself. -/
theorem exists_bracketExclusion {l : List Regex} (he : (intersection l).Fit readDemands) :
    ∃ m, bracketExclusion l = .intersection m ∧ (∀ e ∈ m, e ∈ l) ∧
      bracketExclusion m = .intersection m := by
  obtain ⟨⟨⟨hlength, -, hcount⟩, hpart⟩, hl⟩ := fit_intersection.1 he
  have hclass : ∀ {k : List Regex}, (∀ e ∈ k, e ∈ l) → k.countP isExclusion = 0 →
      ∀ e ∈ k, IsClass e := by
    intro k hk hcount e he
    rcases hpart e (hk e he) with h | ⟨s, rfl⟩
    · exact h
    · exact absurd rfl (List.countP_eq_zero.1 hcount _ he)
  by_cases hexc : l.countP isExclusion = 0
  · -- Without the complement of a set all parts are named classes.
    have h := bracketExclusion_of_isClass (hclass (fun _ h => h) hexc) hlength
    exact ⟨l, h, fun _ h => h, h⟩
  · obtain ⟨e, hmem, hexcl⟩ := List.countP_pos_iff.1 (Nat.pos_of_ne_zero hexc)
    obtain ⟨s, rfl⟩ : ∃ s, e = .complement (.set s) := by
      rcases hpart e hmem with ⟨k, rfl⟩ | h
      · exact Bool.noConfusion hexcl
      · exact h
    have hs := fit_set.1 (fit_complement.1 (hl _ hmem)).2
    obtain ⟨before, after, rfl⟩ := List.append_of_mem hmem
    have hzero : before.countP isExclusion = 0 ∧ after.countP isExclusion = 0 := by
      rw [List.countP_append, List.countP_cons] at hcount
      simp only [isExclusion, if_true] at hcount
      omega
    have hb := hclass (fun x hx => List.mem_append_left _ hx) hzero.1
    have ha := hclass (fun x hx => List.mem_append_right _ (List.mem_cons_of_mem _ hx)) hzero.2
    have hn : before ++ after ≠ [] := by
      intro h
      obtain ⟨rfl, rfl⟩ := List.append_eq_nil_iff.1 h
      exact absurd hlength (by simp)
    -- The complement comes last, and stays there.
    refine ⟨_, bracketExclusion_around hb ha hs.1 hs.2.1 hn, ?_, ?_⟩
    · intro x hx
      simp only [List.mem_append, List.mem_cons, List.not_mem_nil, or_false] at hx ⊢
      tauto
    · have hboth : ∀ x ∈ before ++ after, IsClass x := by
        intro x hx
        exact (List.mem_append.1 hx).elim (hb x) (ha x)
      have h := @bracketExclusion_around _ [] _ hboth nofun hs.1 hs.2.1 (by simpa using hn)
      rwa [List.append_nil] at h

end Regex

end RegexDialects
