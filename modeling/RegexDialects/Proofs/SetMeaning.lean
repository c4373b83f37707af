import RegexDialects.Proofs.Alternatives
import RegexDialects.Proofs.ReadBackShape
import RegexDialects.Proofs.RoundTrip
import RegexDialects.Proofs.Writable
import RegexDialects.Tree.Denotation

/-!
# What sets that are read back match

A tree that matches single characters comes back as one that does, and that matches the same
characters (`isCharSetLike_readBack`, `denotes_readBack`). For that, the constructors are held
against the denotation first: a choice and a union match what one of their parts matches, a
conjunction what all of its conjuncts ask for.

Which characters belong to the named classes is left open, but for the names that the notation of
PCRE does not keep apart (`Interpretation.Standard`).
-/

set_option autoImplicit false

namespace RegexDialects

/-- The readings under which a character of a word is one of the class `word`, and the syntax
    classes that PCRE can write are its own. -/
structure Interpretation.Standard (I : Interpretation) : Prop where
  wordChar : I.wordChar = I.posix .word
  word : I.syntaxClass .word = I.posix .word
  whitespace : I.syntaxClass .whitespace = I.posix .space

namespace Regex

open Pattern Form.Pcre

variable {I : Interpretation} {c : Char}

/-! ## Choices and unions -/

/-- A choice matches a character if one of its branches does. -/
theorem distributes_denotes : Distributes fun e => e.Denotes I c where
  choice := fun _ => denotesSome_iff
  plain := denotes_of_plainSet?
  fail := not_denotes_fail
  union := fun _ _ => CharSet.holds_union

/-- A choice matches what one of its branches matches. -/
theorem denotes_alt {l : List Regex} : (alt l).Denotes I c ↔ ∃ e ∈ l, e.Denotes I c :=
  distributes_denotes.alt l

/-- A union matches what one of its operands matches. -/
theorem denotes_union {l : List Regex} : (union l).Denotes I c ↔ ∃ e ∈ l, e.Denotes I c :=
  distributes_denotes.unionOf l

/-! ## Conjunctions -/

/-- Whether a character is as a conjunct asks. -/
def Conjunct.Holds (I : Interpretation) : Conjunct → Char → Prop
  | .without s, c => ¬ s.Holds I.posix c
  | .within e, c => e.Denotes I c

/-- One set stands for all that is excluded. -/
theorem holds_excluded {cs : List Conjunct} :
    (excluded cs).Holds I.posix c ↔ ∃ s, Conjunct.without s ∈ cs ∧ s.Holds I.posix c := by
  unfold excluded
  rw [CharSet.holds_foldl_union]
  constructor
  · rintro (h | ⟨s, hs, h⟩)
    · exact (CharSet.not_holds_empty h).elim
    · obtain ⟨k, hk, hks⟩ := List.mem_filterMap.1 hs
      cases k with
      | without t =>
        cases hks
        exact ⟨_, hk, h⟩
      | within e => cases hks
  · rintro ⟨s, hs, h⟩
    exact Or.inr ⟨s, List.mem_filterMap.2 ⟨_, hs, rfl⟩, h⟩

/-- Conjuncts are of two sorts, and are collected by sort. -/
theorem holds_all_iff {cs : List Conjunct} :
    (∀ k ∈ cs, k.Holds I c) ↔
      (∀ e ∈ required cs, e.Denotes I c) ∧ ¬ (excluded cs).Holds I.posix c := by
  rw [holds_excluded]
  constructor
  · intro h
    refine ⟨fun e he => h _ (mem_required.1 he), ?_⟩
    rintro ⟨s, hs, hc⟩
    exact h _ hs hc
  · rintro ⟨hreq, hexc⟩ k hk
    cases k with
    | without s => exact fun hc => hexc ⟨s, hk, hc⟩
    | within e => exact hreq e (mem_required.2 hk)

theorem denotes_ofConjuncts {l : List Regex} (hn : l ≠ []) :
    (ofConjuncts l).Denotes I c ↔ ∀ e ∈ l, e.Denotes I c := by
  match l with
  | [] => exact absurd rfl hn
  | [e] => simp [ofConjuncts]
  | e :: f :: l => exact denotesAll_iff

/-- A conjunction matches what all of its conjuncts ask for. -/
theorem denotes_conjunction {cs : List Conjunct} :
    (conjunction cs).Denotes I c ↔ ∀ k ∈ cs, k.Holds I c := by
  rw [holds_all_iff]
  by_cases hr : required cs = []
  · rw [conjunction_of_required_eq_nil hr, hr]
    simp [Denotes]
  · rw [conjunction_of_required_ne_nil hr, denotes_ofConjuncts (conjuncts_ne_nil hr)]
    unfold conjuncts
    split
    · next hx =>
      rw [CharSet.isEmpty_eq_true_iff.1 hx]
      simp [CharSet.not_holds_empty]
    · simp [or_imp, forall_and, Denotes]

/-- The opposite of a member asks for what the member does not match. -/
theorem holds_opposite {m : Member} : m.opposite.Holds I c ↔ ¬ m.tree.Denotes I c := by
  cases m with
  | item i => exact Iff.rfl
  | except k => exact not_not.symm

/-! ## Members of bracket expressions -/

/-- A set matches what one of its items matches. -/
theorem denotes_items {s : CharSet} :
    (∃ m ∈ s.items.map Member.item, m.tree.Denotes I c) ↔ s.Holds I.posix c := by
  simp only [List.mem_map, exists_exists_and_eq_and, Member.tree, Denotes, CharSet.holds_of]
  unfold CharSet.Holds
  constructor
  · rintro ⟨i, hi, h⟩
    simp only [CharSet.items, List.mem_append, List.mem_map] at hi
    rcases hi with (⟨d, hd, rfl⟩ | ⟨r, hr, rfl⟩) | ⟨k, hk, rfl⟩
    · exact Or.inl (h ▸ hd)
    · exact Or.inr (Or.inl ⟨r, hr, h⟩)
    · exact Or.inr (Or.inr ⟨k, hk, h⟩)
  · rintro (hc | ⟨r, hr, h⟩ | ⟨k, hk, h⟩)
    · exact ⟨.char c, by simp [CharSet.items, hc], rfl⟩
    · refine ⟨.range r.1 r.2, ?_, h⟩
      simp only [CharSet.items, List.mem_append, List.mem_map]
      exact Or.inl (Or.inr ⟨r, hr, rfl⟩)
    · exact ⟨.posix k, by simp [CharSet.items, hk], h⟩

theorem denotes_posix {k : PosixClass} :
    (Regex.set (.of (.posix k))).Denotes I c ↔ I.posix k c := by
  show (CharSet.of (.posix k)).Holds I.posix c ↔ _
  rw [CharSet.holds_of]
  rfl

/-- What a tree contributes to a bracket expression matches what the tree matches, and what its
    complement contributes matches the rest. -/
theorem denotes_bracketMembers (hI : I.Standard) {negated : Bool} {e : Regex} {text : List Char}
    (h : bracketItem negated e = some (.ok text)) :
    (∃ m ∈ e.bracketMembers negated, m.tree.Denotes I c) ↔
      if negated then ¬ e.Denotes I c else e.Denotes I c := by
  induction e using inductionOn generalizing negated with
  | complement e ih =>
    -- A complement changes the sign, so two of them cancel.
    rw [bracketMembers, ih (show bracketItem (!negated) e = _ from h)]
    cases negated <;> simp [Denotes]
  | set s =>
    unfold bracketMembers
    unfold bracketItem at h
    cases negated with
    | false =>
      simp only [Bool.false_eq_true, if_false]
      exact denotes_items
    | true =>
      -- The complement of a set can be written only if the set is a class.
      cases hk : s.singleClass? with
      | none => simp [hk] at h
      | some k =>
        rw [CharSet.singleClass?_eq_some_iff] at hk
        subst hk
        simp only [if_true, List.mem_singleton, exists_eq_left]
        exact Iff.rfl
  | literal t =>
    unfold bracketItem at h
    split at h <;> try contradiction
    next d heq =>
      cases heq
      cases negated <;> cases h
      simp [bracketMembers, Member.tree, Denotes, CharSet.holds_of, CharSet.Item.Holds, eq_comm]
  | primitive p =>
    cases p <;> try cases h
    all_goals
      cases negated <;>
        simp [bracketMembers, Member.tree, Denotes, CharSet.holds_of, CharSet.Item.Holds,
          hI.wordChar]
  | syntaxClass k =>
    cases k <;> try cases h
    all_goals
      cases negated <;>
        simp [bracketMembers, Member.tree, Denotes, CharSet.holds_of, CharSet.Item.Holds,
          hI.word, hI.whitespace]
  | _ => cases h

theorem denotes_flatMap_bracketMembers (hI : I.Standard) {negated : Bool} {l : List Regex}
    {text : List Char} (h : bracketItems negated l = some (.ok text)) :
    (∃ m ∈ l.flatMap (bracketMembers negated), m.tree.Denotes I c) ↔
      ∃ e ∈ l, if negated then ¬ e.Denotes I c else e.Denotes I c := by
  constructor
  · rintro ⟨m, hm, hc⟩
    obtain ⟨e, he, hm⟩ := List.mem_flatMap.1 hm
    obtain ⟨t, ht⟩ := bracketItem_of_bracketItems h he
    exact ⟨e, he, (denotes_bracketMembers hI ht).1 ⟨m, hm, hc⟩⟩
  · rintro ⟨e, he, hc⟩
    obtain ⟨t, ht⟩ := bracketItem_of_bracketItems h he
    obtain ⟨m, hm, hc⟩ := (denotes_bracketMembers hI ht).2 hc
    exact ⟨m, List.mem_flatMap.2 ⟨e, he, hm⟩, hc⟩

/-! ## Single characters stay single characters -/

theorem isCharSetLike_of_plainSet? {e : Regex} {s : CharSet} (h : e.plainSet? = some s) :
    e.isCharSetLike = true := by
  unfold plainSet? at h
  split at h
  · rfl
  · rfl
  · cases h

/-- Only trees that match single characters are written in brackets. -/
theorem isCharSetLike_of_bracketItem {negated : Bool} {e : Regex} {text : List Char}
    (h : bracketItem negated e = some (.ok text)) : e.isCharSetLike = true := by
  cases e with
  | literal t =>
    unfold bracketItem at h
    split at h <;> try contradiction
    next heq =>
      cases heq
      rfl
  | primitive p => cases p <;> first | rfl | cases h
  | complement e => rfl
  | set s => rfl
  | syntaxClass k => rfl
  | _ => cases h

/-- Nested choices are flattened, and their branches match single characters too. -/
theorem isCharSetLike_alt {l : List Regex} (h : ∀ e ∈ l, e.isCharSetLike = true) :
    (alt l).isCharSetLike = true := by
  have hb : ∀ b ∈ l.flatMap branches, b.isCharSetLike = true := by
    intro b hb
    obtain ⟨e, he, hb⟩ := List.mem_flatMap.1 hb
    rcases mem_branches hb with ⟨m, rfl, hb⟩ | ⟨rfl, -⟩
    · exact allCharSetLike_iff.1 (h _ he) b hb
    · exact h _ he
  rw [alt_eq_ofBranches]
  generalize l.flatMap branches = l at hb
  match l with
  | [] => rfl
  | [e] => exact hb e List.mem_cons_self
  | e :: f :: l =>
    cases hm : (e :: f :: l).mapM plainSet? with
    | some sets =>
      rw [ofBranches_of_plain hm]
      rfl
    | none =>
      rw [ofBranches_of_not_plain hm]
      exact allCharSetLike_iff.2 hb

theorem isCharSetLike_union {l : List Regex} (h : ∀ e ∈ l, e.isCharSetLike = true) :
    (union l).isCharSetLike = true := by
  cases hs : l.filterMap plainSet? with
  | nil =>
    rw [union_of_filterMap_eq_nil hs]
    exact isCharSetLike_alt h
  | cons s sets =>
    rw [union_of_filterMap_eq_cons hs]
    exact isCharSetLike_alt (forall_mem_gathered rfl h)

theorem isCharSetLike_bracketUnion (l : List Regex) : (bracketUnion l).isCharSetLike = true := by
  apply isCharSetLike_union
  intro e he
  obtain ⟨m, -, rfl⟩ := List.mem_map.1 he
  cases m <;> rfl

/-- What matches single characters does so when it is read back, and nothing else does. -/
theorem isCharSetLike_readBack {e : Regex} (he : e.Fit orderedDemands) (hw : e.Writable) :
    e.readBack.isCharSetLike = e.isCharSetLike := by
  induction e using inductionOn with
  | sequence l _ =>
    rcases readBack_sequence he with ⟨h, -⟩ | ⟨t, -, h, ht⟩
    · rw [h]
      rfl
    · rw [h]
      show (t.length == 1) = false
      rw [beq_eq_false_iff_ne]
      omega
  | choice l ih =>
    have hl := (fit_choice.1 he).2
    rcases writable_choice.1 hw with ⟨hbracketed, text, hb⟩ | ⟨hbracketed, hall⟩
    · have hlike : (choice l).isCharSetLike = true := by
        apply allCharSetLike_iff.2
        intro x hx
        obtain ⟨t, ht⟩ := bracketItem_of_bracketItems hb hx
        exact isCharSetLike_of_bracketItem ht
      rw [hlike, readBack, if_pos hbracketed]
      exact isCharSetLike_bracketUnion l
    · have hmap : allCharSetLike (l.map readBack) = allCharSetLike l := by
        rw [Bool.eq_iff_iff, allCharSetLike_iff, allCharSetLike_iff, List.forall_mem_map]
        apply forall₂_congr
        intro x hx
        rw [ih x hx (hl x hx) (hall x hx)]
      -- Branches that come back as sets may have been united.
      rcases readBack_choice he hbracketed with h | ⟨sets, hsets, h⟩
      · rw [h]
        exact hmap
      · rw [h]
        have hplain : allCharSetLike (l.map readBack) = true := by
          apply allCharSetLike_iff.2
          intro x hx
          obtain ⟨s, -, hs⟩ := exists_plainSet?_of_mapM hsets hx
          exact isCharSetLike_of_plainSet? hs
        exact (hmap.symm.trans hplain).symm
  | syntaxClass k => cases k <;> rfl
  | set s =>
    show (readBackSet s).isCharSetLike = true
    unfold readBackSet
    split
    · rfl
    · split
      · rfl
      · split <;> rfl
  | complement e _ =>
    show (readBackComplement e).isCharSetLike = true
    unfold readBackComplement
    split
    · split
      · rfl
      · split <;> rfl
    · rfl
    · rfl
    · rfl
  | intersection l _ => exact isCharSetLike_bracketExclusion l
  | _ => rfl

/-! ## The same characters -/

theorem holds_anyChar : anyChar.Holds I.posix c := by
  rw [anyChar, CharSet.holds_of]
  refine ⟨UInt32.le_iff_toNat_le.2 (Nat.zero_le _), UInt32.le_iff_toNat_le.2 ?_⟩
  have hmax : (Char.ofNat 0x10ffff).val.toNat = 0x10ffff := by decide
  rw [hmax]
  rcases c.valid with h | ⟨-, h⟩ <;> omega

/-- A set that is read back may have become another tree: the set of no character, one character, or
    the class of word characters. -/
theorem denotes_readBackSet (hI : I.Standard) (s : CharSet) :
    (readBackSet s).Denotes I c ↔ s.Holds I.posix c := by
  unfold readBackSet
  split
  · next hs =>
    rw [hs]
    exact ⟨fun h => absurd holds_anyChar h, fun h => (CharSet.not_holds_empty h).elim⟩
  · split
    · next d hd =>
      rw [CharSet.singleChar?_eq_some_iff] at hd
      rw [hd]
      simp [Denotes, CharSet.Holds, eq_comm]
    · split
      · next hs =>
        rw [hs, CharSet.holds_of]
        show I.wordChar c ↔ I.posix .word c
        rw [hI.wordChar]
      · exact Iff.rfl

/-- The same for a set of which the complement is written. -/
theorem denotes_readBackComplement (hI : I.Standard) (e : Regex) :
    (readBackComplement e).Denotes I c ↔ ¬ e.Denotes I c := by
  unfold readBackComplement
  split
  · next s =>
    split
    · next hs =>
      rw [hs]
      exact ⟨fun _ => CharSet.not_holds_empty, fun _ => holds_anyChar⟩
    · split
      · next hs =>
        rw [hs, denotes_posix]
        show ¬ I.wordChar c ↔ ¬ I.posix .word c
        rw [hI.wordChar]
      · exact Iff.rfl
  · show ¬ I.wordChar c ↔ ¬ I.syntaxClass .word c
    rw [hI.wordChar, hI.word]
  · show ¬ (Regex.set (.of (.posix .space))).Denotes I c ↔ ¬ I.syntaxClass .whitespace c
    rw [denotes_posix, hI.whitespace]
  · exact Iff.rfl

/-- **A set is read back with the characters that it had.** -/
theorem denotes_readBack (hI : I.Standard) {e : Regex} (hl : e.isCharSetLike = true)
    (hw : e.Writable) : e.readBack.Denotes I c ↔ e.Denotes I c := by
  induction e using inductionOn with
  | choice l ih =>
    have hlike := allCharSetLike_iff.1 hl
    rw [Denotes, denotesSome_iff, readBack]
    rcases writable_choice.1 hw with ⟨hbracketed, text, hb⟩ | ⟨hbracketed, hall⟩
    · rw [if_pos hbracketed, bracketUnion, denotes_union]
      have hmem := denotes_flatMap_bracketMembers (c := c) hI hb
      simp only [Bool.false_eq_true, if_false] at hmem
      rw [← hmem]
      simp
    · rw [if_neg (Bool.eq_false_iff.1 hbracketed), readBackAll_eq_map, denotes_alt]
      constructor
      · rintro ⟨x, hx, h⟩
        obtain ⟨y, hy, rfl⟩ := List.mem_map.1 hx
        exact ⟨y, hy, (ih y hy (hlike y hy) (hall y hy)).1 h⟩
      · rintro ⟨y, hy, h⟩
        exact ⟨_, List.mem_map_of_mem hy, (ih y hy (hlike y hy) (hall y hy)).2 h⟩
  | syntaxClass k =>
    cases k with
    | word =>
      show I.wordChar c ↔ I.syntaxClass .word c
      rw [hI.wordChar, hI.word]
    | whitespace =>
      show (Regex.set (.of (.posix .space))).Denotes I c ↔ I.syntaxClass .whitespace c
      rw [denotes_posix, hI.whitespace]
    | _ => exact Iff.rfl
  | set s => exact denotes_readBackSet hI s
  | complement e _ => exact denotes_readBackComplement hI e
  | intersection l _ =>
    obtain ⟨text, hb⟩ := writable_intersection.1 hw
    have hmem := denotes_flatMap_bracketMembers (c := c) hI hb
    show (bracketExclusion l).Denotes I c ↔ DenotesAll I l c
    rw [bracketExclusion, denotes_conjunction, denotesAll_iff]
    have hnone : (∀ m ∈ l.flatMap (bracketMembers true), ¬ m.tree.Denotes I c) ↔
        ¬ ∃ m ∈ l.flatMap (bracketMembers true), m.tree.Denotes I c := by
      simp only [not_exists, not_and]
    simp only [List.forall_mem_map, holds_opposite]
    rw [hnone, hmem]
    simp only [if_true, not_exists, not_and, not_not]
  | sequence l _ => exact absurd hl Bool.false_ne_true
  | _ => exact Iff.rfl

end Regex

end RegexDialects
