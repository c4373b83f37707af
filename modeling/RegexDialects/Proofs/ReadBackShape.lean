import RegexDialects.Proofs.ReadBack

/-!
# The shape of what is read back

Reading back keeps the places of nodes: what can be a part of a sequence comes back as a part, what
can be a branch of a choice as a branch (`isPart_readBack`, `isBranch_readBack`). So a sequence
comes back with its parts where they were (`readBack_sequence`), and a choice that is no bracket
expression with its branches (`readBack_choice`). Only two things can happen besides: literals that
have come to stand side by side merge, and branches that have all become plain fold into a set.
-/

set_option autoImplicit false

namespace RegexDialects.Regex

open Pattern

/-! ## Sequences -/

/-- How many characters, or other parts, a part is. -/
def width : Regex → Nat
  | .literal t => t.length
  | _ => 1

/-- How many characters, or other parts, a list of parts is. -/
def totalWidth : List Regex → Nat
  | [] => 0
  | e :: l => e.width + totalWidth l

theorem totalWidth_glue (e : Regex) (l : List Regex) :
    totalWidth (glue e l) = e.width + totalWidth l := by
  rcases glue_cases e l with ⟨t, u, m, rfl, rfl, h⟩ | ⟨h, -⟩
  · rw [h]
    simp [totalWidth, width, Nat.add_assoc]
  · rw [h, totalWidth]

/-- Merging literals loses nothing. -/
theorem totalWidth_joinText (l : List Regex) : totalWidth (joinText l) = totalWidth l := by
  induction l with
  | nil => rfl
  | cons e l ih => rw [joinText_cons, totalWidth_glue, ih, totalWidth]

/-- Parts that are two characters or more are a sequence, or a literal that long. -/
theorem seq_of_two_le {l : List Regex} (hp : ∀ e ∈ l, e.isPart = true)
    (h : 2 ≤ totalWidth l) :
    (seq l = .sequence (joinText l) ∧ 2 ≤ (joinText l).length) ∨
      ∃ t, joinText l = [.literal t] ∧ seq l = .literal t ∧ 2 ≤ t.length := by
  rw [seq_of_isPart hp]
  rw [← totalWidth_joinText] at h
  generalize joinText l = m at h ⊢
  match m with
  | [] => simp [totalWidth] at h
  | [e] =>
    refine Or.inr ?_
    cases e with
    | literal t => exact ⟨t, rfl, rfl, by simpa [totalWidth, width] using h⟩
    | _ => simp [totalWidth, width] at h
  | e :: f :: m => exact Or.inl ⟨rfl, by simp⟩

/-! ## Parts and branches -/

/-- Whether a tree can be a branch of a choice. -/
def isBranch (e : Regex) : Bool :=
  !e.isChoice && !e.isFail

theorem isBranch_eq_true_iff {e : Regex} :
    e.isBranch = true ↔ e.isChoice = false ∧ e ≠ fail := by
  simp only [isBranch, Bool.and_eq_true, Bool.not_eq_true', ne_eq, ← isFail_eq_true_iff,
    Bool.not_eq_true]

theorem isPart_ofBranches {l : List Regex} (h : ∀ e ∈ l, e.isPart = true) :
    (ofBranches l).isPart = true := by
  match l with
  | [] => rfl
  | [e] => exact h e List.mem_cons_self
  | e :: f :: l =>
    cases hm : (e :: f :: l).mapM plainSet? with
    | some sets =>
      rw [ofBranches_of_plain hm]
      rfl
    | none =>
      rw [ofBranches_of_not_plain hm]
      rfl

theorem flatMap_branches_of_isBranch {l : List Regex} (h : ∀ e ∈ l, e.isBranch = true) :
    l.flatMap branches = l :=
  flatMap_branches fun e he => isBranch_eq_true_iff.1 (h e he)

/-- Two branches or more are a choice, or a set if they are all plain. -/
theorem alt_of_two_le {l : List Regex} (hb : ∀ e ∈ l, e.isBranch = true) (h : 2 ≤ l.length) :
    alt l = .choice l ∨
      ∃ sets, l.mapM plainSet? = some sets ∧ alt l = .set (sets.foldl .union .empty) := by
  rw [alt_eq_ofBranches, flatMap_branches_of_isBranch hb]
  match l, h with
  | e :: f :: l, _ =>
    cases hm : (e :: f :: l).mapM plainSet? with
    | some sets => exact Or.inr ⟨sets, rfl, ofBranches_of_plain hm⟩
    | none => exact Or.inl (ofBranches_of_not_plain hm)

theorem isPart_tree (m : Member) : m.tree.isPart = true := by
  cases m <;> rfl

theorem isPart_of_mem_branches {e x : Regex} (hx : x ∈ e.branches)
    (he : e.isPart = true) (hc : e.isChoice = false) : x.isPart = true := by
  rcases mem_branches hx with ⟨l, rfl, -⟩ | ⟨rfl, -⟩
  · simp [isChoice] at hc
  · exact he

/-- A union of members is one node. -/
theorem isPart_union_tree (ms : List Member) : (union (ms.map Member.tree)).isPart = true := by
  have htree : ∀ e ∈ ms.map Member.tree, e.isPart = true ∧ e.isChoice = false := by
    intro e he
    obtain ⟨m, -, rfl⟩ := List.mem_map.1 he
    exact ⟨isPart_tree m, by cases m <;> rfl⟩
  have halt : ∀ l : List Regex, (∀ e ∈ l, e.isPart = true ∧ e.isChoice = false) →
      (alt l).isPart = true := by
    intro l hl
    rw [alt_eq_ofBranches]
    apply isPart_ofBranches
    intro x hx
    obtain ⟨e, he, hx⟩ := List.mem_flatMap.1 hx
    exact isPart_of_mem_branches hx (hl e he).1 (hl e he).2
  cases h : (ms.map Member.tree).filterMap plainSet? with
  | nil =>
    rw [union_of_filterMap_eq_nil h]
    exact halt _ htree
  | cons s sets =>
    rw [union_of_filterMap_eq_cons h]
    exact halt _ (forall_mem_gathered ⟨rfl, rfl⟩ htree)

theorem conjunction_opposite (ms : List Member) :
    (∃ s, conjunction (ms.map Member.opposite) = .complement (.set s)) ∨
      (∃ k, conjunction (ms.map Member.opposite) = .set (.of (.posix k))) ∨
        ∃ l, conjunction (ms.map Member.opposite) = .intersection l := by
  by_cases hr : required (ms.map Member.opposite) = []
  · exact Or.inl ⟨_, conjunction_of_required_eq_nil hr⟩
  · refine Or.inr ?_
    rw [conjunction_of_required_ne_nil hr]
    have hreq : ∀ e ∈ required (ms.map Member.opposite), ∃ k, e = .set (.of (.posix k)) := by
      intro e he
      obtain ⟨m, -, hm⟩ := List.mem_map.1 (mem_required.1 he)
      cases m with
      | item i => cases hm
      | except k =>
        cases hm
        exact ⟨k, rfl⟩
    unfold conjuncts
    generalize required (ms.map Member.opposite) = req at hr hreq ⊢
    obtain ⟨e, req, rfl⟩ := List.exists_cons_of_ne_nil hr
    obtain ⟨k, rfl⟩ := hreq e List.mem_cons_self
    by_cases hx : (excluded (ms.map Member.opposite)).isEmpty = true
    · rw [if_pos hx]
      cases req with
      | nil => exact Or.inl ⟨k, rfl⟩
      | cons f req => exact Or.inr ⟨_, rfl⟩
    · rw [if_neg hx]
      cases req <;> exact Or.inr ⟨_, rfl⟩

/-! ## Places are kept -/

theorem isPart_readBackSet (s : CharSet) :
    (readBackSet s).isPart = true ∧ (readBackSet s).isBranch = true := by
  unfold readBackSet
  split
  · exact ⟨rfl, rfl⟩
  · next hs =>
    split
    · exact ⟨rfl, rfl⟩
    · split
      · exact ⟨rfl, rfl⟩
      · refine ⟨rfl, isBranch_eq_true_iff.2 ⟨rfl, fun h => hs ?_⟩⟩
        exact Regex.set.inj h

theorem isPart_readBackComplement (e : Regex) :
    (readBackComplement e).isPart = true ∧ (readBackComplement e).isBranch = true := by
  unfold readBackComplement
  split
  · split
    · exact ⟨rfl, by decide⟩
    · split <;> exact ⟨rfl, rfl⟩
  · exact ⟨rfl, rfl⟩
  · exact ⟨rfl, rfl⟩
  · exact ⟨rfl, rfl⟩

theorem isPart_bracketExclusion (l : List Regex) :
    (bracketExclusion l).isPart = true ∧ (bracketExclusion l).isBranch = true := by
  unfold bracketExclusion
  rcases conjunction_opposite (l.flatMap (bracketMembers true)) with ⟨s, h⟩ | ⟨k, h⟩ | ⟨m, h⟩
  · rw [h]
    exact ⟨rfl, rfl⟩
  · rw [h]
    exact ⟨rfl, rfl⟩
  · rw [h]
    exact ⟨rfl, rfl⟩

theorem isCharSetLike_bracketExclusion (l : List Regex) :
    (bracketExclusion l).isCharSetLike = true := by
  unfold bracketExclusion
  rcases conjunction_opposite (l.flatMap (bracketMembers true)) with ⟨s, h⟩ | ⟨k, h⟩ | ⟨m, h⟩ <;>
    rw [h] <;> rfl

theorem width_pos {e : Regex} (h : e.IsNormal) : 1 ≤ e.width := by
  cases e with
  | literal t => exact List.length_pos_iff.2 h
  | _ => exact Nat.le_refl 1

theorem length_le_totalWidth {l : List Regex} (h : ∀ e ∈ l, e.IsNormal) :
    l.length ≤ totalWidth l := by
  induction l with
  | nil => exact Nat.le_refl 0
  | cons e l ih =>
    rw [List.length_cons, totalWidth, Nat.add_comm]
    apply Nat.add_le_add (width_pos (h e List.mem_cons_self))
    apply ih
    intro x hx
    exact h x (List.mem_cons_of_mem _ hx)

/-- The parts of a sequence, once they are read back, are a sequence or a text. -/
theorem seq_map_readBack {l : List Regex} (hl : ∀ e ∈ l, e.readBack.isPart = true)
    (hn : ∀ e ∈ l, e.readBack.IsNormal) (h : 2 ≤ l.length) :
    (seq (l.map readBack) = .sequence (joinText (l.map readBack)) ∧
        2 ≤ (joinText (l.map readBack)).length) ∨
      ∃ t, joinText (l.map readBack) = [.literal t] ∧ seq (l.map readBack) = .literal t ∧
        2 ≤ t.length := by
  refine seq_of_two_le ?_ ?_
  · intro e he
    obtain ⟨x, hx, rfl⟩ := List.mem_map.1 he
    exact hl x hx
  · have hwidth : (l.map readBack).length ≤ totalWidth (l.map readBack) := by
      apply length_le_totalWidth
      intro e he
      obtain ⟨x, hx, rfl⟩ := List.mem_map.1 he
      exact hn x hx
    rw [List.length_map] at hwidth
    exact Nat.le_trans h hwidth

/-- What can be part of a sequence comes back as a part, and what can be a branch as a branch. -/
theorem isPart_and_isBranch_readBack {e : Regex} (he : e.Fit orderedDemands) :
    (e ≠ .empty → e.isSequence = false → e.readBack.isPart = true) ∧
      (e.isBranch = true → e.readBack.isBranch = true) := by
  induction e using inductionOn with
  | empty => exact ⟨fun h => absurd rfl h, fun _ => rfl⟩
  | sequence l ih =>
    refine ⟨fun _ h => Bool.noConfusion h, ?_⟩
    intro _
    obtain ⟨hnormal, hl⟩ := fit_sequence.1 he
    have hpart : ∀ e ∈ l, e.readBack.isPart = true := by
      intro e he
      obtain ⟨hseq, hempty⟩ := hnormal.2.1 e he
      exact (ih e he (hl e he)).1 hempty hseq
    rw [readBack, readBackAll_eq_map]
    rcases seq_map_readBack hpart (fun e he => (fit_readBack (hl e he)).isNormal) hnormal.1 with
      ⟨h, -⟩ | ⟨t, -, h, -⟩
    · rw [h]
      rfl
    · rw [h]
      rfl
  | choice l ih =>
    refine ⟨?_, fun h => Bool.noConfusion h⟩
    intro _ _
    obtain ⟨hnormal, hl⟩ := fit_choice.1 he
    rw [readBack]
    split
    · exact isPart_union_tree _
    · rw [readBackAll_eq_map]
      have hbranch : ∀ e ∈ l.map readBack, e.isBranch = true := by
        intro e he
        obtain ⟨x, hx, rfl⟩ := List.mem_map.1 he
        exact (ih x hx (hl x hx)).2 (isBranch_eq_true_iff.2 (hnormal.2.1 x hx))
      rcases alt_of_two_le hbranch (by rw [List.length_map]; exact hnormal.1) with h | ⟨_, -, h⟩
      · rw [h]
        rfl
      · rw [h]
        rfl
  | syntaxClass k => cases k <;> exact ⟨fun _ _ => rfl, fun _ => rfl⟩
  | set s => exact ⟨fun _ _ => (isPart_readBackSet s).1, fun _ => (isPart_readBackSet s).2⟩
  | complement e _ =>
    exact ⟨fun _ _ => (isPart_readBackComplement e).1, fun _ => (isPart_readBackComplement e).2⟩
  | intersection l _ =>
    exact ⟨fun _ _ => (isPart_bracketExclusion l).1, fun _ => (isPart_bracketExclusion l).2⟩
  | _ => exact ⟨fun _ _ => rfl, fun _ => rfl⟩

theorem isPart_readBack {e : Regex} (he : e.Fit orderedDemands) (h : e.isPart = true) :
    e.readBack.isPart = true :=
  (isPart_and_isBranch_readBack he).1 (isPart_eq_true_iff.1 h).2 (isPart_eq_true_iff.1 h).1

theorem isBranch_readBack {e : Regex} (he : e.Fit orderedDemands) (h : e.isBranch = true) :
    e.readBack.isBranch = true :=
  (isPart_and_isBranch_readBack he).2 h

/-- A sequence comes back as a sequence, or as a text of two characters or more. -/
theorem readBack_sequence {l : List Regex} (he : (sequence l).Fit orderedDemands) :
    ((sequence l).readBack = .sequence (joinText (l.map readBack)) ∧
        2 ≤ (joinText (l.map readBack)).length) ∨
      ∃ t, joinText (l.map readBack) = [.literal t] ∧ (sequence l).readBack = .literal t ∧
        2 ≤ t.length := by
  obtain ⟨hnormal, hl⟩ := fit_sequence.1 he
  rw [readBack, readBackAll_eq_map]
  exact seq_map_readBack (fun e he => isPart_readBack (hl e he) (hnormal.isPart_of_mem he))
    (fun e he => (fit_readBack (hl e he)).isNormal) hnormal.1

/-- A choice that is no bracket expression comes back with its branches, unless they all fold into
    one set. -/
theorem readBack_choice {l : List Regex} (he : (choice l).Fit orderedDemands)
    (hb : isBracketed l = false) :
    (choice l).readBack = .choice (l.map readBack) ∨
      ∃ sets, (l.map readBack).mapM plainSet? = some sets ∧
        (choice l).readBack = .set (sets.foldl .union .empty) := by
  obtain ⟨hnormal, hl⟩ := fit_choice.1 he
  rw [readBack, if_neg (by rw [hb]; exact Bool.false_ne_true), readBackAll_eq_map]
  refine alt_of_two_le ?_ (by rw [List.length_map]; exact hnormal.1)
  intro e he
  obtain ⟨x, hx, rfl⟩ := List.mem_map.1 he
  exact isBranch_readBack (hl x hx) (isBranch_eq_true_iff.2 (hnormal.2.1 x hx))

end RegexDialects.Regex
