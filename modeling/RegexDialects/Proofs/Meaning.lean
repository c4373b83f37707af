import RegexDialects.Proofs.Invariant
import RegexDialects.Proofs.SetMeaning

/-!
# Writing and reading keep the meaning

The meaning of a tree, as far as notations may differ about it, is a list of steps (`steps`): texts
and sequences are taken apart, and what matches single characters is replaced by the characters that
it matches. Everything else is kept: groups, references, bounds, greed, assertions and the order of
branches.

Reading back what was written keeps the steps (`steps_readBack`). The induction needs to look at
sequences and choices only; of all that matches single characters it is known as a whole that its
characters are kept.
-/

set_option autoImplicit false

namespace RegexDialects

/-- What is matched at a time. -/
inductive Step where
  /-- One of a set of characters. -/
  | chars (members : Char → Prop)
  | primitive (p : Primitive)
  | backref (n : Nat)
  | choice (branches : List (List Step))
  | repetition (least : Nat) (most : Option Nat) (greedy : Bool) (body : List Step)
  | group (body : List Step)

namespace Regex

open Form.Pcre

variable {I : Interpretation}

mutual

/-- The steps of a tree, under a reading of the names of classes. -/
def steps (I : Interpretation) : Regex → List Step
  | .empty => []
  | .literal t => t.map fun c => .chars (Denotes I (.literal [c]))
  | .primitive p =>
    if (Regex.primitive p).isCharSetLike then [.chars (Denotes I (.primitive p))]
    else [.primitive p]
  | .sequence l => stepsAll I l
  | .choice l =>
    if allCharSetLike l then [.chars (Denotes I (.choice l))] else [.choice (branchSteps I l)]
  | .repetition least most greedy e => [.repetition least most greedy (steps I e)]
  | .group e => [.group (steps I e)]
  | .backref n => [.backref n]
  | .syntaxClass k => [.chars (Denotes I (.syntaxClass k))]
  | .category k => [.chars (Denotes I (.category k))]
  | .set s => [.chars (Denotes I (.set s))]
  | .complement e => [.chars (Denotes I (.complement e))]
  | .intersection l => [.chars (Denotes I (.intersection l))]

/-- The steps of all of a list, one after the other. -/
def stepsAll (I : Interpretation) : List Regex → List Step
  | [] => []
  | e :: l => steps I e ++ stepsAll I l

/-- The steps of each of a list. -/
def branchSteps (I : Interpretation) : List Regex → List (List Step)
  | [] => []
  | e :: l => steps I e :: branchSteps I l

end

theorem stepsAll_eq_flatMap (l : List Regex) : stepsAll I l = l.flatMap (steps I) := by
  induction l with
  | nil => rfl
  | cons e l ih => rw [stepsAll, ih, List.flatMap_cons]

theorem branchSteps_eq_map (l : List Regex) : branchSteps I l = l.map (steps I) := by
  induction l with
  | nil => rfl
  | cons e l ih => rw [branchSteps, ih, List.map_cons]

/-- What matches single characters is one step. -/
theorem steps_of_isCharSetLike {e : Regex} (h : e.isCharSetLike = true) :
    steps I e = [.chars (Denotes I e)] := by
  cases e with
  | literal t =>
    obtain ⟨c, rfl⟩ := List.length_eq_one_iff.1 (beq_iff_eq.1 h)
    rfl
  | primitive p => rw [steps, if_pos h]
  | choice l =>
    have hl : allCharSetLike l = true := h
    rw [steps, if_pos hl]
  | empty => exact absurd h Bool.false_ne_true
  | sequence l => exact absurd h Bool.false_ne_true
  | repetition n m g e => exact absurd h Bool.false_ne_true
  | group e => exact absurd h Bool.false_ne_true
  | backref n => exact absurd h Bool.false_ne_true
  | _ => rfl

/-! ## Sequences -/

theorem additive_steps : Additive (steps I) where
  empty := rfl
  literal := fun _ _ => List.map_append
  sequence := stepsAll_eq_flatMap

/-- The steps of a sequence are those of its parts. -/
theorem steps_seq (l : List Regex) : steps I (seq l) = l.flatMap (steps I) :=
  additive_steps.seq l

/-! ## Reading back -/

theorem steps_readBack_of_isCharSetLike (hI : I.Standard) {e : Regex}
    (he : e.Fit orderedDemands) (hw : e.Writable) (hl : e.isCharSetLike = true) :
    steps I e.readBack = steps I e := by
  have hl' : e.readBack.isCharSetLike = true := (isCharSetLike_readBack he hw).trans hl
  have hsame : Denotes I e.readBack = Denotes I e :=
    funext fun c => propext (denotes_readBack hI hl hw)
  rw [steps_of_isCharSetLike hl', steps_of_isCharSetLike hl, hsame]

/-- **Reading back keeps the steps of a tree.** -/
theorem steps_readBack (hI : I.Standard) {e : Regex} (he : e.Fit orderedDemands)
    (hw : e.Writable) : steps I e.readBack = steps I e := by
  induction e using inductionOn with
  | sequence l ih =>
    have hl := (fit_sequence.1 he).2
    have hall := writable_sequence.1 hw
    rw [readBack, readBackAll_eq_map, steps_seq, steps, stepsAll_eq_flatMap, List.flatMap_map]
    apply List.flatMap_congr
    intro x hx
    exact ih x hx (hl x hx) (hall x hx)
  | choice l ih =>
    cases hlike : (choice l).isCharSetLike with
    | true => exact steps_readBack_of_isCharSetLike hI he hw hlike
    | false =>
      have hl := (fit_choice.1 he).2
      have hlike' : ((choice l).readBack).isCharSetLike = false :=
        (isCharSetLike_readBack he hw).trans hlike
      rcases writable_choice.1 hw with ⟨hbracketed, -⟩ | ⟨hbracketed, hall⟩
      · -- A bracket expression matches single characters.
        rw [readBack, if_pos hbracketed, isCharSetLike_bracketUnion] at hlike'
        exact Bool.noConfusion hlike'
      · rcases readBack_choice he hbracketed with h | ⟨sets, -, h⟩
        · rw [h] at hlike' ⊢
          have hnot : ¬ allCharSetLike l = true := Bool.eq_false_iff.1 hlike
          have hnot' : ¬ allCharSetLike (l.map readBack) = true := Bool.eq_false_iff.1 hlike'
          rw [steps, steps, if_neg hnot, if_neg hnot', branchSteps_eq_map, branchSteps_eq_map,
            List.map_map]
          have hmap : l.map (steps I ∘ readBack) = l.map (steps I) := by
            apply List.map_congr_left
            intro x hx
            exact ih x hx (hl x hx) (hall x hx)
          rw [hmap]
        · -- So does the set that plain branches fold into.
          rw [h] at hlike'
          exact Bool.noConfusion (show true = false from hlike')
  | repetition n m g e ih =>
    rw [readBack, steps, steps, ih (fit_repetition.1 he).2 (writable_repetition.1 hw)]
  | group e ih => rw [readBack, steps, steps, ih (fit_group.1 he) (writable_group.1 hw)]
  | syntaxClass k => exact steps_readBack_of_isCharSetLike hI he hw rfl
  | set s => exact steps_readBack_of_isCharSetLike hI he hw rfl
  | complement e _ => exact steps_readBack_of_isCharSetLike hI he hw rfl
  | intersection l _ => exact steps_readBack_of_isCharSetLike hI he hw rfl
  | _ => rfl

/-! ## The round trip -/

/-- **A tree that is written in the notation of PCRE and read again keeps its meaning**: its text is
    read as a tree with the same steps, unless groups and repetitions nest too deep for the
    reader. -/
theorem steps_of_parse_render {e : Regex}
    (he : e.Built ∨ ∃ dialect pattern, Regex.parse dialect pattern = .ok e)
    (hr : ∀ s, .set s ∈ e.nodes → ∀ r ∈ s.ranges, r.1 ≤ r.2) {text : String}
    (h : e.render .pcre = .ok text) :
    (∃ f, Regex.parse .pcre text = .error f ∧ f.kind = .tooDeep) ∨
      ∃ e', Regex.parse .pcre text = .ok e' ∧
        ∀ I : Interpretation, I.Standard → steps I e' = steps I e := by
  have hb : e.Built := by
    rcases he with he | ⟨dialect, pattern, hp⟩
    · exact he
    · exact built_of_parse hp
  have hfit := fit_orderedDemands hb hr
  rcases parse_of_render hfit h with hdeep | hparse
  · exact Or.inl hdeep
  · refine Or.inr ⟨_, hparse, ?_⟩
    intro I hI
    exact steps_readBack hI hfit (writable_of_render h)

/-- A reference in front of a digit, written with a group around it. -/
theorem steps_of_parse_render_reference_before_digit :
    (seq [.group (.set (.of (.range 'a' 'f'))), .backref 1, .text ['2']]).render .pcre =
        .ok "([a-f])(?:\\1)2" ∧
      ((∃ f, Regex.parse .pcre "([a-f])(?:\\1)2" = .error f ∧ f.kind = .tooDeep) ∨
        ∃ e', Regex.parse .pcre "([a-f])(?:\\1)2" = .ok e' ∧
          ∀ I : Interpretation, I.Standard → steps I e' =
            steps I (seq [.group (.set (.of (.range 'a' 'f'))), .backref 1, .text ['2']])) := by
  have hbuilt : Built (seq [.group (.set (.of (.range 'a' 'f'))), .backref 1, .text ['2']]) := by
    refine .seq ?_
    intro e he
    simp only [List.mem_cons, List.not_mem_nil, or_false] at he
    rcases he with rfl | rfl | rfl
    · exact .group (.set (.adjoin .empty nofun))
    · exact .reference (digit_le_maxNumber (Nat.le_add_left 1 8)) rfl
    · exact .text _
  have hranges : ∀ s, Regex.set s ∈
      (seq [.group (.set (.of (.range 'a' 'f'))), .backref 1, .text ['2']]).nodes →
        ∀ r ∈ s.ranges, r.1 ≤ r.2 := by
    intro s hs
    have hs : s = ⟨[], [('a', 'f')], []⟩ := by
      simpa [seq, partsAll, parts, joinText, text, nodes, nodesAll, CharSet.of, CharSet.adjoin,
        CharSet.empty, addNew] using hs
    rw [hs]
    decide
  have hrender : (seq [.group (.set (.of (.range 'a' 'f'))), .backref 1, .text ['2']]).render
      .pcre = .ok "([a-f])(?:\\1)2" := by
    rfl
  exact ⟨hrender, steps_of_parse_render (Or.inl hbuilt) hranges hrender⟩

end Regex

end RegexDialects
