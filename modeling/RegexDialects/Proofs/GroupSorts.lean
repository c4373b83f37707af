import RegexDialects.Proofs.EmacsPlaces

/-!
# The groups of a pattern

Whether there is a number left for every group of an Emacs pattern depends on the sorts of its
groups alone, and on their order. The sorts are read off the places of a reading (`sorts`), and the
numbers go from group to group (`Numbering.after?`), as far as there are any.

In a pattern that is accepted they do not run out (`after?_sorts_of_read`). If such patterns stand
one behind the other they may, but only if a group has a number of its own that is close to the
largest one (`hasNumbers_of_le`).
-/

set_option autoImplicit false

namespace RegexDialects.Pattern.Emacs

/-! ## Numbers -/

/-- The numbers behind groups of the sorts `kinds`, unless they run out. -/
def Numbering.after? (groups : Numbering) (kinds : List GroupKind) : Option Numbering :=
  kinds.foldlM Numbering.next? groups

/-- Whether there are numbers for all groups of a pattern, if they are of the sorts `kinds`. -/
def HasNumbers (kinds : List GroupKind) : Prop :=
  ((0 : Numbering).after? kinds).isSome
deriving Decidable

namespace Numbering

variable {groups : Numbering} {kind : GroupKind} {kinds : List GroupKind}

theorem after?_cons (groups : Numbering) (kind : GroupKind) (kinds : List GroupKind) :
    groups.after? (kind :: kinds) = (groups.next? kind).bind (·.after? kinds) :=
  List.foldlM_cons

theorem after?_append (groups : Numbering) (kinds kinds' : List GroupKind) :
    groups.after? (kinds ++ kinds') = (groups.after? kinds).bind (·.after? kinds') :=
  List.foldlM_append

/-- Numbers are left if neither the highest one nor a number of a group itself comes too close to
    the largest one. As long as groups just get the next number, the highest one does not matter. -/
theorem isSome_after?
    (hg : groups.explicit = true ∨ (∃ n, .numbered n ∈ kinds) →
      groups.highest + kinds.count .implicit ≤ maxNumber)
    (hk : ∀ n, .numbered n ∈ kinds → n + kinds.count .implicit ≤ maxNumber) :
    (groups.after? kinds).isSome := by
  induction kinds generalizing groups with
  | nil => rfl
  | cons kind kinds ih =>
    rw [after?_cons]
    cases kind with
    | implicit =>
      rw [List.count_cons_self] at hg hk
      have hroom : ¬ groups.IsFull := by
        rintro ⟨hexplicit, hfull⟩
        have hle := hg (Or.inl hexplicit)
        omega
      rw [next?, if_neg hroom, Option.bind_some]
      refine ih ?_ ?_
      · intro h
        have hle := hg (h.imp_right (Exists.imp fun _ => List.mem_cons_of_mem _))
        show groups.highest + 1 + _ ≤ _
        omega
      · intro n hn
        have hle := hk n (List.mem_cons_of_mem _ hn)
        omega
    | numbered n =>
      rw [List.count_cons_of_ne (by simp)] at hg hk
      rw [next?, Option.bind_some]
      refine ih ?_ ?_
      · intro _
        have hhighest := hg (Or.inr ⟨n, List.mem_cons_self⟩)
        have hown := hk n List.mem_cons_self
        show max groups.highest n + _ ≤ _
        omega
      · intro m hm
        exact hk m (List.mem_cons_of_mem _ hm)
    | shy =>
      rw [List.count_cons_of_ne (by simp)] at hg hk
      rw [next?, Option.bind_some]
      refine ih ?_ ?_
      · intro h
        exact hg (h.imp_right (Exists.imp fun _ => List.mem_cons_of_mem _))
      · intro m hm
        exact hk m (List.mem_cons_of_mem _ hm)

end Numbering

/-- There are numbers for all groups, if no group has one of its own that together with the number
    of plain groups has more than 32 bits. -/
theorem hasNumbers_of_le {kinds : List GroupKind}
    (h : ∀ n, .numbered n ∈ kinds → n + kinds.count .implicit ≤ maxNumber) : HasNumbers kinds := by
  refine Numbering.isSome_after? ?_ h
  rintro (⟨⟨⟩⟩ | ⟨n, hn⟩)
  have hle := h n hn
  show 0 + _ ≤ _
  omega

/-! ## Sorts -/

/-- The sort of the group that begins at a place, if one does. -/
def sortAt? (c : Cursor) : Option GroupKind :=
  match c.rest with
  | '\\' :: '(' :: text =>
    match GroupKind.read c.rest text with
    | .error _ => none
    | .ok (kind, _) => some kind
  | _ => none

/-- The sorts of the groups that begin at the places `visited`. -/
def sortsAt (visited : List Cursor) : List GroupKind :=
  visited.filterMap sortAt?

/-- The sorts of the groups of a pattern, in the order in which they open. -/
def sorts (pattern : List Char) : List GroupKind :=
  sortsAt (places pattern)

variable {c c' cur next : Cursor} {visited : List Cursor}

theorem sortAt?_of_noGroup (h : NoGroup c) : sortAt? c = none := by
  unfold sortAt?
  split
  · next hr => exact absurd hr (h _)
  · rfl

theorem sortAt?_of_opens {kind : GroupKind} (h : Opens kind c c') : sortAt? c = some kind := by
  obtain ⟨text, hr, hopen⟩ := h
  have hread := (openGroup_eq_ok_iff.1 hopen).1
  unfold sortAt?
  rw [hr] at hread ⊢
  simp only [hread]

theorem sortsAt_append (visited visited' : List Cursor) :
    sortsAt (visited ++ visited') = sortsAt visited ++ sortsAt visited' :=
  List.filterMap_append

theorem sortsAt_of_noGroup (h : NoGroup c) (visited : List Cursor) :
    sortsAt (c :: visited) = sortsAt visited :=
  List.filterMap_cons_none (sortAt?_of_noGroup h)

theorem sortsAt_of_opens {kind : GroupKind} (h : Opens kind c c') (visited : List Cursor) :
    sortsAt (c :: visited) = kind :: sortsAt visited :=
  List.filterMap_cons_some (sortAt?_of_opens h)

/-- The numbers go from place to place as groups open. -/
theorem after?_of_step (h : Step c c') (visited : List Cursor) :
    c.groups.after? (sortsAt (c :: visited)) = c'.groups.after? (sortsAt visited) := by
  cases h with
  | opens kind h =>
    rw [sortsAt_of_opens h, Numbering.after?_cons]
    obtain ⟨text, -, hopen⟩ := h
    rw [(openGroup_eq_ok_iff.1 hopen).2, Option.bind_some]
  | goesOn hn _ hg => rw [sortsAt_of_noGroup hn, hg]

/-- At the last place the numbers are those behind all groups. -/
theorem after?_of_isChain (h : (c :: visited).IsChain Step)
    (hlast : (c :: visited).getLast? = some next) (hn : NoGroup next) :
    c.groups.after? (sortsAt (c :: visited)) = some next.groups := by
  induction visited generalizing c with
  | nil =>
    obtain rfl : c = next := Option.some.inj hlast
    rw [sortsAt_of_noGroup hn]
    rfl
  | cons c' visited ih =>
    rw [List.isChain_cons_cons] at h
    rw [after?_of_step h.1, ih h.2]
    rwa [List.getLast?_cons_cons] at hlast

/-- Where a reading stops, the numbers are those behind all groups that it has opened. -/
theorem Traces.after? {α : Type} {r : Except Fault (α × Cursor)} {a : α}
    (h : Traces visited cur r) (hr : r = .ok (a, next)) :
    cur.groups.after? (sortsAt visited) = some next.groups := by
  have hn : NoGroup next := by
    by_contra hgroup
    obtain ⟨f, hf, -⟩ := h.blocked next (h.last hr) hgroup
    cases hf.symm.trans hr
  cases visited with
  | nil => cases h.head
  | cons c visited =>
    cases h.head
    exact after?_of_isChain h.chain (h.last hr) hn

/-- In a pattern that is accepted the numbers do not run out. -/
theorem after?_sorts_of_read {pattern : List Char} {e : Regex}
    (h : (expression maxDepth).read ⟨pattern, 0⟩ = .ok (e, next)) :
    (0 : Numbering).after? (sorts pattern) = some next.groups :=
  (traces_places pattern).after? h

/-! ## Sorts inside readers -/

section

variable (deeper : Option Inside) (inner : InsidePlaces) (levels : Nat)

/-- The groups of `atom`, which may be one itself. -/
def atomSorts (cur : Cursor) : List GroupKind :=
  sortsAt (cur :: groupPlaces deeper inner cur)

/-- The groups of `pieces`. -/
def piecesSorts (atStart : Bool) (cur : Cursor) : List GroupKind :=
  sortsAt (piecesPlaces deeper inner levels atStart cur)

/-- The groups of `branches`. -/
def branchesSorts (cur : Cursor) : List GroupKind :=
  sortsAt (branchesPlaces deeper inner levels cur)

end

variable {deeper : Option Inside} {inner : InsidePlaces} {levels : Nat} {e : Regex}

theorem atomSorts_of_noGroup (h : NoGroup cur) : atomSorts deeper inner cur = [] := by
  rw [atomSorts, groupPlaces_of_noGroup h]
  exact sortsAt_of_noGroup h []

theorem atomSorts_of_open {inside : Inside} {text : List Char} {kind : GroupKind} {start : Cursor}
    {groups : Numbering}
    (h : openGroup ('\\' :: '(' :: text) ⟨text, groups⟩ = .ok (kind, start)) :
    atomSorts (some inside) inner ⟨'\\' :: '(' :: text, groups⟩ =
      kind :: sortsAt (inner start) := by
  rw [atomSorts, groupPlaces_of_open rfl h]
  exact sortsAt_of_opens ⟨text, rfl, h⟩ _

theorem piecesSorts_of_ends (atStart : Bool) (h : branchEnds cur.rest = true) :
    piecesSorts deeper inner levels atStart cur = [] := by
  rw [piecesSorts, piecesPlaces, if_pos h]
  exact sortsAt_of_noGroup (noGroup_of_branchEnds h) []

theorem piecesSorts_of_piece {atStart : Bool} (hends : ¬ branchEnds cur.rest)
    (h : piece deeper levels atStart cur = .ok (e, next)) :
    piecesSorts deeper inner levels atStart cur =
      atomSorts deeper inner cur ++ piecesSorts deeper inner levels false next := by
  rw [piecesSorts, piecesPlaces, if_neg hends]
  split
  · next hp => cases hp.symm.trans h
  · next hp =>
    cases hp.symm.trans h
    exact sortsAt_append (cur :: groupPlaces deeper inner cur) _

theorem branchesSorts_of_bar {rest : List Char} {groups : Numbering}
    (h : branch deeper levels cur = .ok (e, ⟨'\\' :: '|' :: rest, groups⟩)) :
    branchesSorts deeper inner levels cur =
      piecesSorts deeper inner levels true cur ++
        branchesSorts deeper inner levels ⟨rest, groups⟩ := by
  rw [branchesSorts, branchesPlaces]
  split
  · next hb =>
    cases hb.symm.trans h
    exact sortsAt_append _ _
  · next hne => exact absurd h (hne _ _ _)

theorem branchesSorts_of_not_bar (h : branch deeper levels cur = .ok (e, next))
    (hbar : ∀ rest, next.rest ≠ '\\' :: '|' :: rest) :
    branchesSorts deeper inner levels cur = piecesSorts deeper inner levels true cur := by
  rw [branchesSorts, branchesPlaces]
  split
  · next hb =>
    cases hb.symm.trans h
    exact absurd rfl (hbar _)
  · rfl

/-- The places of what stands inside the groups of an expression. -/
def placesBelow : Nat → InsidePlaces
  | 0 => fun _ => []
  | levels + 1 => expressionPlaces levels

theorem sortsAt_expressionPlaces (levels : Nat) (cur : Cursor) :
    sortsAt (expressionPlaces levels cur) =
      branchesSorts (below levels) (placesBelow levels) levels cur := by
  cases levels <;> rfl

end RegexDialects.Pattern.Emacs
