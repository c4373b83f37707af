import RegexDialects.Proofs.BracketFixpoint

/-!
# Trees settle when they are read back

A tree that was read and can be written is `Legible`. What it is read back as is legible again
(`Legible.readBack`), so writing and reading can go on for ever. They come to rest, however: the
tree that is read back from what was read back stays as it is
(`Legible.readBack_readBack_readBack`).

Once would not be enough. A set that bracket expressions united may be one that has a shorter form,
and it takes another round to find that out: `\w|\w` is read back as the set of the class `word`,
and that as the primitive for characters of words. Beyond the second round nothing can happen,
because a choice is a bracket expression in every round after the first if it is one in the first.
-/

set_option autoImplicit false

namespace RegexDialects.Regex

open Form.Pcre Pattern

/-! ## What reading back keeps at single nodes -/

/-- A set becomes what it is read back as at once. -/
theorem readBack_readBackSet (s : CharSet) : (readBackSet s).readBack = readBackSet s := by
  unfold readBackSet
  split
  · rfl
  · next hs =>
    split
    · rfl
    · next hc =>
      split
      · rfl
      · next hw =>
        rw [readBack, readBackSet, if_neg hs, hc]
        exact if_neg hw

theorem readBack_readBackComplement (e : Regex) :
    (readBackComplement e).readBack = readBackComplement e := by
  unfold readBackComplement
  split
  · next s =>
    split
    · rfl
    · next hs =>
      split
      · rfl
      · next hw =>
        rw [readBack, readBackComplement, if_neg hs, if_neg hw]
  · rfl
  · rfl
  · next e hset hword hspace =>
    rw [readBack, readBackComplement]
    · exact hset
    · exact hword
    · exact hspace

/-! ## Legible trees -/

/-- What readers promise of their trees is enough to read them back, and is kept by that. -/
theorem readable_readDemands : readDemands.Readable where
  closed := closed_readDemands
  ordered := by
    intro x hx
    cases x with
    | set s =>
      refine ⟨hx.1, ?_⟩
      intro r hr
      exact Std.le_of_lt (hx.2.2 r hr)
    | repetition n m g e => exact hx
    | intersection l => exact fun _ _ => trivial
    | _ => trivial
  of := set_readDemands_of
  posix := fun k => Or.inl ⟨k, rfl⟩
  contributes := by
    refine Or.inr ?_
    intro e he hp
    rcases hp with ⟨k, rfl⟩ | ⟨s, rfl⟩
    · exact List.cons_ne_nil _ _
    · have hs := fit_set.1 (fit_complement.1 he).2
      exact fun hnil => CharSet.items_ne_nil hs.2.1 (List.map_eq_nil_iff.1 hnil)

/-- A tree such as readers return, if it can be written. -/
structure Legible (e : Regex) : Prop where
  fit : e.Fit readDemands
  writable : e.Writable

namespace Legible

variable {e : Regex} {l : List Regex}

theorem ordered (h : e.Legible) : e.Fit orderedDemands :=
  h.fit.imp readable_readDemands.ordered

theorem isNormal (h : e.Legible) : e.IsNormal :=
  h.fit.isNormal

theorem sequence (h : (sequence l).Legible) (he : e ∈ l) : e.Legible :=
  ⟨(fit_sequence.1 h.fit).2 e he, writable_sequence.1 h.writable e he⟩

theorem repetition {n : Nat} {m : Option Nat} {g : Bool} (h : (repetition n m g e).Legible) :
    e.Legible :=
  ⟨(fit_repetition.1 h.fit).2, writable_repetition.1 h.writable⟩

theorem group (h : (group e).Legible) : e.Legible :=
  ⟨fit_group.1 h.fit, writable_group.1 h.writable⟩

/-- The branches of a choice that is no bracket expression. -/
theorem choice (h : (choice l).Legible) (hb : isBracketed l = false) (he : e ∈ l) :
    e.Legible := by
  refine ⟨(fit_choice.1 h.fit).2 e he, ?_⟩
  rcases writable_choice.1 h.writable with ⟨hb', -⟩ | ⟨-, hall⟩
  · rw [hb] at hb'
    exact Bool.noConfusion hb'
  · exact hall e he

end Legible

/-! ## Choices -/

/-- A character and a set with something in it have a place in brackets. -/
theorem isSome_bracketItem_of_isPlain {e : Regex} (h : e.isPlain = true) (hn : e ≠ fail) :
    (bracketItem false e).isSome = true := by
  rcases isPlain_iff.1 h with ⟨s, rfl⟩ | ⟨c, rfl⟩
  · have hs : s ≠ .empty := by
      rintro rfl
      exact hn rfl
    simp [bracketItem, CharSet.isEmpty_eq_true_iff, hs]
  · rfl

/-- One branch without a place in brackets is enough, where nothing fails before it. -/
theorem isBracketed_eq_false {l : List Regex} (hn : ∀ e ∈ l, e.IsNormal)
    (hw : ∀ e ∈ l, e.Writable) {x : Regex} (hx : x ∈ l) (h : bracketItem false x = none) :
    isBracketed l = false := by
  induction l with
  | nil => exact absurd hx List.not_mem_nil
  | cons e l ih =>
    rw [isBracketed, bracketItems]
    -- What fails in front of the branch would end the search with a bracket expression.
    cases he : bracketItem false e with
    | none => rfl
    | some items =>
      obtain ⟨t, rfl⟩ := bracketItem_ok_of_writable (hn e List.mem_cons_self)
        (hw e List.mem_cons_self) he
      rcases List.mem_cons.1 hx with rfl | hx
      · rw [h] at he
        cases he
      · have hl : (bracketItems false l).isSome = false :=
          ih (fun y hy => hn y (List.mem_cons_of_mem _ hy))
            (fun y hy => hw y (List.mem_cons_of_mem _ hy)) hx
        show ((bracketItems false l).map _).isSome = false
        rw [Option.isSome_map, hl]

/-- What has no place in brackets does not get one. -/
theorem Legible.bracketItem_readBack {e : Regex} (h : e.Legible) (hc : e.isChoice = false)
    (hb : bracketItem false e = none) : bracketItem false e.readBack = none := by
  cases e with
  | choice l => exact Bool.noConfusion hc
  | sequence l =>
    rcases readBack_sequence h.ordered with ⟨hr, -⟩ | ⟨t, -, hr, ht⟩
    · rw [hr]
      rfl
    · rw [hr]
      match t, ht with
      | _ :: _ :: _, _ => rfl
  | syntaxClass k => cases k <;> first | rfl | cases hb
  | set s =>
    have hs : s ≠ .empty := (fit_set.1 h.fit).2.1
    have hsome := isSome_bracketItem_of_isPlain (show (Regex.set s).isPlain = true from rfl)
      fun h => hs (Regex.set.inj h)
    rw [hb] at hsome
    exact Bool.noConfusion hsome
  | complement e =>
    rcases isNegatable_iff.1 h.isNormal with ⟨s, rfl⟩ | ⟨k, rfl⟩ | ⟨k, rfl⟩
    · have hs : s ≠ .empty := (fit_set.1 (fit_complement.1 h.fit).2).2.1
      have hw : s ≠ .of (.posix .word) := by
        rintro rfl
        cases hb
      rw [readBack, readBackComplement, if_neg hs, if_neg hw]
      exact hb
    · cases k <;> first | rfl | cases hb
    · exact hb
  | intersection l =>
    obtain ⟨m, hm, -⟩ := exists_bracketExclusion h.fit
    rw [readBack, hm]
    rfl
  | _ => exact hb

/-- **A choice that is no bracket expression stays one**: its branches are read back one by one. -/
theorem Legible.readBack_choice {l : List Regex} (h : (Regex.choice l).Legible)
    (hb : isBracketed l = false) (hw : ∀ e ∈ l, e.readBack.Writable) :
    (Regex.choice l).readBack = .choice (l.map readBack) ∧
      isBracketed (l.map readBack) = false := by
  have hnormal := h.isNormal
  obtain ⟨x, hx, hnone⟩ := exists_bracketItem_eq_none (Option.not_isSome_iff_eq_none.1
    (Bool.eq_false_iff.1 hb))
  have hbranch := hnormal.2.1 x hx
  have hnone' := (h.choice hb hx).bracketItem_readBack hbranch.1 hnone
  refine ⟨?_, isBracketed_eq_false ?_ ?_ (List.mem_map_of_mem hx) hnone'⟩
  · rcases Regex.readBack_choice h.ordered hb with hr | ⟨sets, hsets, -⟩
    · exact hr
    · -- Then the branch would have become plain, and so have a place.
      have hfail := (isBranch_eq_true_iff.1 (isBranch_readBack (h.choice hb hx).ordered
        (isBranch_eq_true_iff.2 hbranch))).2
      have hplain : x.readBack.isPlain = true := by
        cases hp : x.readBack.isPlain with
        | true => rfl
        | false =>
          rw [mapM_plainSet?_eq_none.2 ⟨_, List.mem_map_of_mem hx, hp⟩] at hsets
          cases hsets
      have hsome := isSome_bracketItem_of_isPlain hplain hfail
      rw [hnone'] at hsome
      exact Bool.noConfusion hsome
  · intro e he
    obtain ⟨y, hy, rfl⟩ := List.mem_map.1 he
    exact (fit_readBack (h.choice hb hy).ordered).isNormal
  · intro e he
    obtain ⟨y, hy, rfl⟩ := List.mem_map.1 he
    exact hw y hy

/-- A choice that is a bracket expression is read back as the choice of a block. -/
theorem Legible.exists_isBlock {l : List Regex} (h : (Regex.choice l).Legible)
    (hb : isBracketed l = true) :
    ∃ m, IsBlock m ∧ m ≠ [] ∧ (Regex.choice l).readBack = alt m ∧ ∀ e ∈ m, e.Writable := by
  obtain ⟨hnormal, hl⟩ := fit_choice.1 h.ordered
  have hn := ne_nil_of_two_le_length hnormal.1
  rcases writable_choice.1 h.writable with ⟨-, text, htext⟩ | ⟨hb', -⟩
  · have hspelled : ∀ m ∈ l.flatMap (bracketMembers false), m.IsSpelled := by
      intro m hm
      exact isSpelled_of_mem_flatMap hl hm
    obtain ⟨m, hm, hne, hunion, hw⟩ :=
      Regex.exists_isBlock hspelled (flatMap_bracketMembers_ne_nil hb hn)
    rw [readBack, if_pos hb]
    exact ⟨m, hm, hne, hunion, hw (inPcre_of_bracketItems htext)⟩
  · rw [hb] at hb'
    exact Bool.noConfusion hb'

/-- A block has a place in brackets, if all of it can be written. -/
theorem IsBlock.isBracketed {l : List Regex} (h : IsBlock l) (hw : ∀ e ∈ l, e.Writable) :
    isBracketed l = true ∧ ∃ text, bracketItems false l = some (.ok text) := by
  obtain ⟨text, htext⟩ := bracketItems_ok_of_writable (fun e he => (h.isNormal he).1) hw
    fun e he => h.isSome_bracketItem he
  exact ⟨Option.isSome_of_eq_some htext, text, htext⟩

/-! ## Sequences -/

/-- Texts that merge can still be written. -/
theorem writable_seq {l : List Regex} (hp : ∀ e ∈ l, e.isPart = true)
    (hw : ∀ e ∈ l, e.Writable) : (seq l).Writable := by
  have hjoin : ∀ e ∈ joinText l, e.Writable :=
    forall_mem_joinText (fun _ _ _ => ⟨_, rfl⟩) hw
  rw [seq_of_isPart hp]
  match h : joinText l with
  | [] => exact ⟨_, rfl⟩
  | [e] =>
    rw [h] at hjoin
    exact hjoin e List.mem_cons_self
  | e :: f :: m =>
    rw [h] at hjoin
    exact writable_sequence.2 hjoin

/-- Parts can be read back one by one, before or after they are put together. -/
theorem readBack_seq {l : List Regex} (hp : ∀ e ∈ l, e.isPart = true)
    (hl : ∀ e ∈ l, e.Fit orderedDemands) : (seq l).readBack = seq (l.map readBack) := by
  have hpart : ∀ e ∈ l.map readBack, e.isPart = true := by
    intro e he
    obtain ⟨x, hx, rfl⟩ := List.mem_map.1 he
    exact isPart_readBack (hl x hx) (hp x hx)
  have hmap : joinText ((joinText l).map readBack) = joinText (l.map readBack) :=
    joinText_map_joinText (fun _ => rfl) l
  rw [seq_of_isPart hp, seq_of_isPart hpart, ← hmap]
  have hjoin : ∀ e ∈ joinText l, e.isPart = true ∧ e.Fit orderedDemands :=
    forall_mem_joinText
      (fun t u ht => ⟨rfl, fit_literal.2 (List.append_ne_nil_of_left_ne_nil (fit_literal.1 ht.2) u)⟩)
      fun e he => ⟨hp e he, hl e he⟩
  generalize joinText l = m at hjoin
  match m with
  | [] => rfl
  | [e] =>
    rw [List.map_singleton, joinText_of_apart (List.isChain_singleton _)]
    rfl
  | e :: f :: m =>
    show (Regex.sequence (e :: f :: m)).readBack = _
    rw [readBack, readBackAll_eq_map]
    apply seq_of_isPart
    intro x hx
    obtain ⟨y, hy, rfl⟩ := List.mem_map.1 hx
    exact isPart_readBack (hjoin y hy).2 (hjoin y hy).1

/-! ## Reading back for ever -/

theorem writable_readBackSet {s : CharSet} (h : s.InPcre) : (readBackSet s).Writable := by
  unfold readBackSet
  split
  · exact ⟨_, rfl⟩
  · split
    · exact ⟨_, rfl⟩
    · split
      · exact ⟨_, rfl⟩
      · exact writable_set.2 h

theorem writable_readBackComplement {e : Regex} (h : (complement e).Writable) :
    (readBackComplement e).Writable := by
  unfold readBackComplement
  split
  · split
    · exact ⟨_, rfl⟩
    · split
      · exact ⟨_, rfl⟩
      · exact h
  · exact ⟨_, rfl⟩
  · exact ⟨_, rfl⟩
  · exact h

/-- What is read back can be written again. -/
theorem Legible.writable_readBack {e : Regex} (h : e.Legible) : e.readBack.Writable := by
  induction e using inductionOn with
  | sequence l ih =>
    obtain ⟨hnormal, hl⟩ := fit_sequence.1 h.ordered
    rw [readBack, readBackAll_eq_map]
    apply writable_seq
    · intro x hx
      obtain ⟨y, hy, rfl⟩ := List.mem_map.1 hx
      exact isPart_readBack (hl y hy) (hnormal.isPart_of_mem hy)
    · intro x hx
      obtain ⟨y, hy, rfl⟩ := List.mem_map.1 hx
      exact ih y hy (h.sequence hy)
  | choice l ih =>
    cases hb : isBracketed l with
    | true =>
      obtain ⟨m, hm, hne, hread, hw⟩ := h.exists_isBlock hb
      rw [hread]
      -- A block of one tree is that tree; a longer one is written in brackets again.
      rcases alt_of_isBlock hm hne with ⟨x, rfl, halt⟩ | halt
      · rw [halt]
        exact hw x List.mem_cons_self
      · rw [halt]
        exact writable_choice.2 (Or.inl (hm.isBracketed hw))
    | false =>
      have hall : ∀ x ∈ l, x.readBack.Writable := by
        intro x hx
        exact ih x hx (h.choice hb hx)
      obtain ⟨hread, hb'⟩ := h.readBack_choice hb hall
      rw [hread]
      exact writable_choice.2 (Or.inr ⟨hb', List.forall_mem_map.2 hall⟩)
  | repetition n m g e ih => exact writable_repetition.2 (ih h.repetition)
  | group e ih => exact writable_group.2 (ih h.group)
  | syntaxClass k =>
    cases k with
    | word | whitespace => exact ⟨_, rfl⟩
    | _ => exact h.writable
  | set s => exact writable_readBackSet (writable_set.1 h.writable)
  | complement e _ => exact writable_readBackComplement h.writable
  | intersection l _ =>
    obtain ⟨m, hm, hmem, -⟩ := exists_bracketExclusion h.fit
    obtain ⟨text, htext⟩ := writable_intersection.1 h.writable
    rw [readBack, hm]
    exact writable_intersection.2
      (bracketItems_ok_of_forall fun x hx => bracketItem_of_bracketItems htext (hmem x hx))
  | _ => exact h.writable

/-- **What is read back is legible again.** -/
theorem Legible.readBack {e : Regex} (h : e.Legible) : e.readBack.Legible :=
  ⟨readable_readDemands.fit_readBack h.fit, h.writable_readBack⟩

/-- **After the second round nothing changes any more.** -/
theorem Legible.readBack_readBack_readBack {e : Regex} (h : e.Legible) :
    e.readBack.readBack.readBack = e.readBack.readBack := by
  induction e using inductionOn with
  | sequence l ih =>
    obtain ⟨hnormal, hl⟩ := fit_sequence.1 h.ordered
    have hpart : ∀ x ∈ l, x.readBack.isPart = true := by
      intro x hx
      exact isPart_readBack (hl x hx) (hnormal.isPart_of_mem hx)
    have hpart' : ∀ x ∈ l, x.readBack.readBack.isPart = true := by
      intro x hx
      exact isPart_readBack (fit_readBack (hl x hx)) (hpart x hx)
    have hfit' : ∀ x ∈ l, x.readBack.readBack.Fit orderedDemands := by
      intro x hx
      exact fit_readBack (fit_readBack (hl x hx))
    -- Texts that merge in between do not matter: the parts are read back one by one.
    have hread : (Regex.sequence l).readBack.readBack =
        seq (l.map fun x => x.readBack.readBack) := by
      rw [Regex.readBack, readBackAll_eq_map, readBack_seq (List.forall_mem_map.2 hpart)
        (List.forall_mem_map.2 fun x hx => fit_readBack (hl x hx)), List.map_map]
      rfl
    rw [hread, readBack_seq (List.forall_mem_map.2 hpart') (List.forall_mem_map.2 hfit'),
      List.map_map]
    exact congrArg seq (List.map_congr_left fun x hx => ih x hx (h.sequence hx))
  | choice l ih =>
    cases hb : isBracketed l with
    | true =>
      obtain ⟨m, hm, hne, hread, hw⟩ := h.exists_isBlock hb
      rw [hread]
      rcases alt_of_isBlock hm hne with ⟨x, rfl, halt⟩ | halt
      · -- A single branch is a set or a complement, and both are read back once for all.
        rw [halt]
        rcases hm.mem List.mem_cons_self with ⟨k, rfl⟩ | ⟨s, rfl, -⟩
        · exact readBack_readBackComplement _
        · exact readBack_readBackSet s
      · -- A block is read back as itself.
        have hfix : (alt m).readBack = alt m := by
          rw [halt, Regex.readBack, if_pos (hm.isBracketed hw).1, bracketUnion_of_isBlock hm, halt]
        rw [hfix, hfix]
    | false =>
      have hall : ∀ x ∈ l, x.Legible := by
        intro x hx
        exact h.choice hb hx
      -- It is a choice of its branches in all three rounds.
      obtain ⟨h1, hb1⟩ := h.readBack_choice hb fun x hx => (hall x hx).writable_readBack
      have hleg := h.readBack
      rw [h1] at hleg ⊢
      obtain ⟨h2, hb2⟩ := hleg.readBack_choice hb1
        (List.forall_mem_map.2 fun x hx => (hall x hx).readBack.writable_readBack)
      have hleg' := hleg.readBack
      rw [h2, List.map_map] at hleg' ⊢
      rw [List.map_map] at hb2
      obtain ⟨h3, -⟩ := hleg'.readBack_choice hb2
        (List.forall_mem_map.2 fun x hx => (hall x hx).readBack.readBack.writable_readBack)
      rw [h3, List.map_map]
      exact congrArg Regex.choice (List.map_congr_left fun x hx => ih x hx (hall x hx))
  | repetition n m g e ih => simp only [Regex.readBack, ih h.repetition]
  | group e ih => simp only [Regex.readBack, ih h.group]
  | syntaxClass k => cases k <;> rfl
  | set s =>
    show (readBackSet s).readBack.readBack = (readBackSet s).readBack
    rw [readBack_readBackSet, readBack_readBackSet]
  | complement e _ =>
    show (readBackComplement e).readBack.readBack = (readBackComplement e).readBack
    rw [readBack_readBackComplement, readBack_readBackComplement]
  | intersection l _ =>
    obtain ⟨m, hm, -, hfix⟩ := exists_bracketExclusion h.fit
    have hread : (Regex.intersection l).readBack = .intersection m := hm
    have hread' : (Regex.intersection m).readBack = .intersection m := hfix
    rw [hread, hread', hread']
  | _ => rfl

end RegexDialects.Regex
