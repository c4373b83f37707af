import RegexDialects.Form.Pcre
import RegexDialects.Proofs.Built
import RegexDialects.Proofs.Member

/-!
# The tree that is read back

What a tree becomes when it is written in the notation of PCRE and read again. Mostly this is the
tree itself, but the notation has one bracket expression for many trees: a choice of sets and
classes comes back as their union, an intersection as the conjunction of its parts, and a set of one
character as the character.

`bracketMembers` lists what stands between the brackets, `readBack` is the tree. Neither looks at
any text. That this is what the reader returns for the text of a tree is another matter
(`RoundTrip.lean`); all that follows from the round trip, however, follows from `readBack`.
-/

set_option autoImplicit false

namespace RegexDialects.Regex

open Form.Pcre Pattern

/-! ## Definitions -/

/-- What a tree, or its complement, contributes to a bracket expression, as members. It follows
    `bracketItem`, and lists nothing where that has no form. -/
def bracketMembers (negated : Bool) : Regex → List Member
  | .complement e => bracketMembers (!negated) e
  | .set s =>
    if negated then
      match s.singleClass? with
      | some k => [.except k]
      | none => []
    else s.items.map .item
  | .primitive .wordChar | .syntaxClass .word =>
    [if negated then .except .word else .item (.posix .word)]
  | .primitive .notWordChar => [if negated then .item (.posix .word) else .except .word]
  | .syntaxClass .whitespace => [if negated then .except .space else .item (.posix .space)]
  | .literal [c] => if negated then [] else [.item (.char c)]
  | _ => []

/-- All characters, as a range. -/
def anyChar : CharSet := .of (.range '\x00' (Char.ofNat 0x10ffff))

/-- What a set becomes. -/
def readBackSet (s : CharSet) : Regex :=
  if s = .empty then .complement (.set anyChar)
  else
    match s.singleChar? with
    | some c => .literal [c]
    | none => if s = .of (.posix .word) then .primitive .wordChar else .set s

/-- What the complement of a tree becomes. -/
def readBackComplement : Regex → Regex
  | .set s =>
    if s = .empty then .set anyChar
    else if s = .of (.posix .word) then .primitive .notWordChar
    else .complement (.set s)
  | .syntaxClass .word => .primitive .notWordChar
  | .syntaxClass .whitespace => .complement (.set (.of (.posix .space)))
  | e => .complement e

/-- Whether branches are written as one bracket expression. -/
def isBracketed (l : List Regex) : Bool :=
  (bracketItems false l).isSome

/-- The union of what branches contribute to a bracket expression. -/
def bracketUnion (l : List Regex) : Regex :=
  union ((l.flatMap (bracketMembers false)).map Member.tree)

/-- What is left by a bracket expression that excludes what the complements of parts contribute. -/
def bracketExclusion (l : List Regex) : Regex :=
  conjunction ((l.flatMap (bracketMembers true)).map Member.opposite)

mutual

/-- What a tree becomes when it is written and read again. -/
def readBack : Regex → Regex
  | .sequence l => seq (readBackAll l)
  | .choice l => if isBracketed l then bracketUnion l else alt (readBackAll l)
  | .repetition least most greedy e => .repetition least most greedy (readBack e)
  | .group e => .group (readBack e)
  | .syntaxClass .word => .primitive .wordChar
  | .syntaxClass .whitespace => .set (.of (.posix .space))
  | .set s => readBackSet s
  | .complement e => readBackComplement e
  | .intersection l => bracketExclusion l
  | e => e

/-- What each of a list becomes. -/
def readBackAll : List Regex → List Regex
  | [] => []
  | e :: l => readBack e :: readBackAll l

end

theorem readBackAll_eq_map (l : List Regex) : readBackAll l = l.map readBack := by
  induction l with
  | nil => rfl
  | cons e l ih => rw [readBackAll, ih, List.map_cons]

/-! ## Trees whose ranges are in order -/

/-- What holds of the nodes of a built tree whose ranges do not go down, beyond normal form. -/
def orderedDemands : Demands where
  set := fun s => s.Tidy ∧ ∀ r ∈ s.ranges, r.1 ≤ r.2
  bounds := BoundsFit
  part := fun _ => True

theorem set_orderedDemands_empty : orderedDemands.set .empty := by
  refine ⟨CharSet.tidy_empty, ?_⟩
  intro r hr
  exact absurd hr List.not_mem_nil

theorem set_orderedDemands_of {i : CharSet.Item} (hi : Member.IsSpelled (.item i)) :
    orderedDemands.set (.of i) := by
  have ht : (CharSet.of i).Tidy := by
    apply CharSet.tidy_of
    intro t h
    subst h
    exact hi.elim
  refine ⟨ht, ?_⟩
  intro r hr
  cases i with
  | range lo up =>
    simp only [CharSet.of, CharSet.adjoin] at hr
    split at hr
    · exact absurd hr List.not_mem_nil
    · have hr : r ∈ addNew [] (lo, up) := hr
      rw [mem_addNew] at hr
      rcases hr with hr | rfl
      · exact absurd hr List.not_mem_nil
      · exact hi
  | set s => exact hi.elim
  | _ => exact absurd hr List.not_mem_nil

theorem closed_orderedDemands : orderedDemands.Closed where
  char := fun _ => set_orderedDemands_of (i := .char _) trivial
  union := by
    intro s t hs ht
    have hs : orderedDemands.set s := by
      rcases hs with rfl | hs
      · exact set_orderedDemands_empty
      · exact hs
    refine ⟨hs.1.union ht.1, ?_⟩
    intro r hr
    rcases mem_addAllNew.1 hr with hr | hr
    · exact hs.2 r hr
    · exact ht.2 r hr
  exclusion := fun _ => trivial

/-- A built tree with its ranges in order. -/
theorem fit_orderedDemands {e : Regex} (hb : e.Built)
    (hr : ∀ s, .set s ∈ e.nodes → ∀ r ∈ s.ranges, r.1 ≤ r.2) : e.Fit orderedDemands := by
  intro x hx
  obtain ⟨hnormal, hmeets⟩ := hb.fit x hx
  refine ⟨hnormal, ?_⟩
  cases x with
  | set s => exact ⟨hmeets, hr s hx⟩
  | repetition n m g e => exact hmeets
  | intersection l => exact fun _ _ => trivial
  | _ => trivial

/-- The items of a set whose ranges are in order can be spelled. -/
theorem isSpelled_of_mem_items {s : CharSet} (hs : ∀ r ∈ s.ranges, r.1 ≤ r.2)
    {i : CharSet.Item} (hi : i ∈ s.items) : Member.IsSpelled (.item i) := by
  simp only [CharSet.items, List.mem_append, List.mem_map] at hi
  rcases hi with (⟨c, -, rfl⟩ | ⟨r, hr, rfl⟩) | ⟨k, -, rfl⟩
  · trivial
  · exact hs r hr
  · trivial

theorem isSpelled_of_mem_bracketMembers {negated : Bool} {e : Regex} (he : e.Fit orderedDemands)
    {m : Member} (hm : m ∈ e.bracketMembers negated) : m.IsSpelled := by
  induction e using inductionOn generalizing negated with
  | complement e ih =>
    have hm : m ∈ e.bracketMembers (!negated) := hm
    exact ih (fit_complement.1 he).2 hm
  | set s =>
    unfold bracketMembers at hm
    split at hm
    · split at hm
      · rw [List.mem_singleton.1 hm]
        trivial
      · exact absurd hm List.not_mem_nil
    · obtain ⟨i, hi, rfl⟩ := List.mem_map.1 hm
      exact isSpelled_of_mem_items (fit_set.1 he).2 hi
  | literal t =>
    match t with
    | [c] =>
      unfold bracketMembers at hm
      split at hm
      · exact absurd hm List.not_mem_nil
      · rw [List.mem_singleton.1 hm]
        trivial
    | [] => exact absurd hm List.not_mem_nil
    | _ :: _ :: _ => exact absurd hm List.not_mem_nil
  | primitive p =>
    cases p with
    | wordChar | notWordChar =>
      rw [List.mem_singleton.1 hm]
      split <;> trivial
    | _ => exact absurd hm List.not_mem_nil
  | syntaxClass k =>
    cases k with
    | word | whitespace =>
      rw [List.mem_singleton.1 hm]
      split <;> trivial
    | _ => exact absurd hm List.not_mem_nil
  | _ => exact absurd hm List.not_mem_nil

theorem isSpelled_of_mem_flatMap {negated : Bool} {l : List Regex}
    (hl : ∀ e ∈ l, e.Fit orderedDemands) {m : Member}
    (hm : m ∈ l.flatMap (bracketMembers negated)) : m.IsSpelled := by
  obtain ⟨e, he, hm⟩ := List.mem_flatMap.1 hm
  exact isSpelled_of_mem_bracketMembers (hl e he) hm

/-! ## What reading back keeps -/

/-- What has a place in a bracket expression contributes to it. -/
theorem bracketMembers_ne_nil {negated : Bool} {e : Regex}
    (h : (bracketItem negated e).isSome = true) : e.bracketMembers negated ≠ [] := by
  induction e using inductionOn generalizing negated with
  | complement e ih => exact ih (show (bracketItem (!negated) e).isSome = true from h)
  | set s =>
    unfold bracketItem at h
    unfold bracketMembers
    cases negated with
    | false =>
      have hs : s ≠ .empty := by
        rintro rfl
        exact Bool.noConfusion h
      intro hnil
      exact CharSet.items_ne_nil hs (List.map_eq_nil_iff.1 hnil)
    | true =>
      cases hk : s.singleClass? with
      | none => simp [hk] at h
      | some k => exact List.cons_ne_nil _ _
  | literal t =>
    match t with
    | [c] =>
      cases negated with
      | false => exact List.cons_ne_nil _ _
      | true => exact Bool.noConfusion h
    | [] => exact Bool.noConfusion h
    | _ :: _ :: _ => exact Bool.noConfusion h
  | primitive p => cases p <;> first | exact List.cons_ne_nil _ _ | exact Bool.noConfusion h
  | syntaxClass k =>
    cases k with
    | word | whitespace => exact List.cons_ne_nil _ _
    | _ => exact Bool.noConfusion h
  | _ => exact Bool.noConfusion h

/-- Trees have no bracket expression if one of them has no place in it. -/
theorem exists_bracketItem_eq_none {negated : Bool} {l : List Regex}
    (h : bracketItems negated l = none) : ∃ e ∈ l, bracketItem negated e = none := by
  induction l with
  | nil => cases h
  | cons e l ih =>
    cases he : bracketItem negated e with
    | none => exact ⟨e, List.mem_cons_self, he⟩
    | some items =>
      rw [bracketItems, he] at h
      cases items with
      | error cause => cases h
      | ok t =>
        obtain ⟨x, hx, hnone⟩ := ih (Option.map_eq_none_iff.1 h)
        exact ⟨x, List.mem_cons_of_mem _ hx, hnone⟩

theorem flatMap_bracketMembers_ne_nil {negated : Bool} {l : List Regex}
    (h : (bracketItems negated l).isSome = true) (hn : l ≠ []) :
    l.flatMap (bracketMembers negated) ≠ [] := by
  obtain ⟨e, l, rfl⟩ := List.exists_cons_of_ne_nil hn
  have he : (bracketItem negated e).isSome = true := by
    unfold bracketItems at h
    cases hb : bracketItem negated e with
    | none => simp [hb] at h
    | some items => rfl
  rw [List.flatMap_cons]
  exact List.append_ne_nil_of_left_ne_nil (bracketMembers_ne_nil he) _

/-- Demands that whatever stands for a bracket expression meets. -/
structure Demands.Readable (D : Demands) : Prop where
  closed : D.Closed
  ordered : ∀ x : Regex, x.Meets D → x.Meets orderedDemands
  of : ∀ {i}, Member.IsSpelled (.item i) → D.set (.of i)
  posix : ∀ k, D.part (.set (.of (.posix k)))
  /-- Nothing is left of an intersection only where the empty set is allowed. -/
  contributes : D.set .empty ∨ ∀ e : Regex, e.Fit D → D.part e → e.bracketMembers true ≠ []

theorem readable_orderedDemands : orderedDemands.Readable where
  closed := closed_orderedDemands
  ordered := fun _ h => h
  of := set_orderedDemands_of
  posix := fun _ => trivial
  contributes := Or.inl set_orderedDemands_empty

section Readable

variable {D : Demands}

theorem Demands.Readable.anyChar (hD : D.Readable) : D.set anyChar :=
  hD.of (i := .range _ _) (show '\x00' ≤ Char.ofNat 0x10ffff by decide)

theorem Demands.Readable.isSpelled (hD : D.Readable) {negated : Bool} {l : List Regex}
    (hl : ∀ e ∈ l, e.Fit D) {m : Member} (hm : m ∈ l.flatMap (bracketMembers negated)) :
    m.IsSpelled :=
  isSpelled_of_mem_flatMap (fun e he => (hl e he).imp hD.ordered) hm

theorem fit_readBackSet (hD : D.Readable) {s : CharSet} (hs : D.set s) :
    (readBackSet s).Fit D := by
  unfold readBackSet
  split
  · exact fit_complement.2 ⟨rfl, fit_set.2 hD.anyChar⟩
  · split
    · exact fit_literal.2 (List.cons_ne_nil _ _)
    · split
      · exact fit_primitive
      · exact fit_set.2 hs

theorem fit_readBackComplement (hD : D.Readable) {e : Regex} (he : (complement e).Fit D) :
    e.readBackComplement.Fit D := by
  unfold readBackComplement
  split
  · split
    · exact fit_set.2 hD.anyChar
    · split
      · exact fit_primitive
      · exact he
  · exact fit_primitive
  · exact fit_complement.2 ⟨rfl, fit_set.2 (hD.of (i := .posix _) trivial)⟩
  · exact he

theorem fit_bracketUnion (hD : D.Readable) {l : List Regex} (hl : ∀ e ∈ l, e.Fit D)
    (hn : l.flatMap (bracketMembers false) ≠ []) : (bracketUnion l).Fit D := by
  refine fit_union hD.closed ?_ (Or.inr fun h => hn (List.map_eq_nil_iff.1 h))
  intro e he
  obtain ⟨m, hm, rfl⟩ := List.mem_map.1 he
  exact fit_tree hD.of (hD.isSpelled hl hm)

theorem fit_bracketExclusion (hD : D.Readable) {l : List Regex} (hl : ∀ e ∈ l, e.Fit D)
    (hn : D.set .empty ∨ l.flatMap (bracketMembers true) ≠ []) :
    (bracketExclusion l).Fit D := by
  refine fit_conjunction hD.closed ?_ (hn.imp_right fun hn h => hn (List.map_eq_nil_iff.1 h))
  intro c hc
  obtain ⟨m, hm, rfl⟩ := List.mem_map.1 hc
  exact fit_opposite hD.of hD.posix (hD.isSpelled hl hm)

/-- **What is read back is as well ordered as what was written.** -/
theorem Demands.Readable.fit_readBack (hD : D.Readable) {e : Regex} (he : e.Fit D) :
    e.readBack.Fit D := by
  induction e using inductionOn with
  | sequence l ih =>
    rw [readBack, readBackAll_eq_map]
    apply fit_seq
    intro x hx
    obtain ⟨y, hy, rfl⟩ := List.mem_map.1 hx
    exact ih y hy ((fit_sequence.1 he).2 y hy)
  | choice l ih =>
    obtain ⟨hnormal, hl⟩ := fit_choice.1 he
    have hn := ne_nil_of_two_le_length hnormal.1
    rw [readBack]
    split
    · next hb => exact fit_bracketUnion hD hl (flatMap_bracketMembers_ne_nil hb hn)
    · rw [readBackAll_eq_map]
      refine fit_alt hD.closed ?_ (Or.inr fun h => hn (List.map_eq_nil_iff.1 h))
      intro x hx
      obtain ⟨y, hy, rfl⟩ := List.mem_map.1 hx
      exact ih y hy (hl y hy)
  | repetition n m g e ih =>
    obtain ⟨hb, he⟩ := fit_repetition.1 he
    exact fit_repetition.2 ⟨hb, ih he⟩
  | group e ih => exact fit_group.2 (ih (fit_group.1 he))
  | syntaxClass k =>
    cases k with
    | word => exact fit_primitive
    | whitespace => exact fit_set.2 (hD.of (i := .posix _) trivial)
    | _ => exact fit_syntaxClass
  | set s => exact fit_readBackSet hD (fit_set.1 he)
  | complement e _ => exact fit_readBackComplement hD he
  | intersection l _ =>
    obtain ⟨⟨hnormal, hpart⟩, hl⟩ := fit_intersection.1 he
    refine fit_bracketExclusion hD hl (hD.contributes.imp_right ?_)
    intro hc
    obtain ⟨e, l, rfl⟩ := List.exists_cons_of_ne_nil (ne_nil_of_two_le_length hnormal.1)
    rw [List.flatMap_cons]
    exact List.append_ne_nil_of_left_ne_nil
      (hc e (hl e List.mem_cons_self) (hpart e List.mem_cons_self)) _
  | _ => exact he

end Readable

/-- What is read back is in order again. -/
theorem fit_readBack {e : Regex} (he : e.Fit orderedDemands) : e.readBack.Fit orderedDemands :=
  readable_orderedDemands.fit_readBack he

end RegexDialects.Regex
