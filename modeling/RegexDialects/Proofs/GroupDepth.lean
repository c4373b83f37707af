import RegexDialects.Proofs.Links
import RegexDialects.Proofs.NestingLimit

/-!
# How deep a pattern nests

A reader counts levels where it is: one for each group that it is in, shy or not, and one for each
repetition that a quantifier stacks on others. What it returns is bounded as a whole, along every
way down from the root (`Path`): the groups on the way are no more than the limit, and neither are
the groups above a repetition together with the chain of repetitions that starts there
(`levels_le_of_parse`).

Both follow from one measure, the levels that it takes to write the tree as PCRE: a node takes no
fewer than its children, and a group one more (`nesting_le_of_mem_children`). For the trees of PCRE
the measure is known to be within the limit, and those of Emacs are put together alike.
-/

set_option autoImplicit false

namespace RegexDialects

namespace Regex

/-! ## Ways down -/

/-- A way down from the root `e` to the node `x`, with the nodes above `x`, the root first. -/
inductive Path : Regex → List Regex → Regex → Prop
  | here (e : Regex) : Path e [] e
  | down {e c x : Regex} {above : List Regex} :
    c ∈ e.children → Path c above x → Path e (e :: above) x

/-- The ways down lead to the nodes. -/
theorem mem_nodes_iff_path {e x : Regex} : x ∈ e.nodes ↔ ∃ above, Path e above x := by
  constructor
  · intro hx
    induction e using inductionOnChildren with
    | step e ih =>
      rcases mem_nodes_iff_of_children.1 hx with rfl | ⟨c, hc, hx⟩
      · exact ⟨[], .here _⟩
      · obtain ⟨above, hpath⟩ := ih c hc hx
        exact ⟨_, .down hc hpath⟩
  · rintro ⟨above, hpath⟩
    induction hpath with
    | here e => exact e.mem_nodes_self
    | down hc _ ih => exact mem_nodes_iff_of_children.2 (Or.inr ⟨_, hc, ih⟩)

/-! ## Levels on a way down -/

/-- A node takes as many levels as what it holds, and a group takes one more. -/
theorem nesting_le_of_mem_children {e c : Regex} (he : e.Fit readDemands) (hc : c ∈ e.children) :
    (if e.isGroup then 1 else 0) + nesting 0 c ≤ nesting 0 e := by
  cases e with
  | sequence l | choice l =>
    have hle := nestingAll_le_iff.1 (Nat.le_refl (nestingAll 0 0 l)) c hc
    exact (Nat.zero_add _).trans_le (Nat.le_of_add_right_le hle)
  | repetition n m g body =>
    cases List.mem_singleton.1 hc
    rw [nesting]
    exact (Nat.zero_add _).trans_le
      (Nat.le_trans (Nat.le_add_right _ _) (Nat.le_max_left _ _))
  | group body =>
    cases List.mem_singleton.1 hc
    exact Nat.le_of_eq (Nat.add_comm _ _)
  | complement body =>
    cases List.mem_singleton.1 hc
    rcases isNegatable_iff.1 (fit_complement.1 he).1 with ⟨s, rfl⟩ | ⟨k, rfl⟩ | ⟨k, rfl⟩ <;>
      exact Nat.le_refl 0
  | intersection l =>
    -- Only negated bracket expressions are read as intersections.
    rcases (fit_intersection.1 he).1.2 c hc with ⟨k, rfl⟩ | ⟨s, rfl⟩ <;> exact Nat.le_refl 0
  | _ => cases hc

theorem Path.countP_add_nesting_le {e x : Regex} {above : List Regex} (h : Path e above x)
    (he : e.Fit readDemands) : above.countP isGroup + nesting 0 x ≤ nesting 0 e := by
  induction h with
  | here e => exact Nat.le_of_eq (Nat.zero_add _)
  | @down e c x above hc _ ih =>
    have hbelow := ih (Everywhere.of_mem_children he hc)
    have hstep := nesting_le_of_mem_children he hc
    rw [List.countP_cons]
    omega

/-- A group takes a level. -/
theorem countP_isGroup_singleton_le (x : Regex) : [x].countP isGroup ≤ nesting 0 x := by
  cases x with
  | group body => exact Nat.succ_le_succ (Nat.zero_le _)
  | _ => exact Nat.zero_le _

theorem repeatDepth_repetition_le_nesting (n : Nat) (m : Option Nat) (g : Bool) (e : Regex) :
    (repetition n m g e).repeatDepth ≤ nesting 0 (.repetition n m g e) := by
  rw [repeatDepth, nesting, Nat.add_comm]
  exact Nat.le_max_right _ _

/-- A chain of repetitions takes a level for each of them. -/
theorem repeatDepth_le_nesting {e : Regex} (he : e.Fit readDemands) :
    e.repeatDepth ≤ nesting 0 e := by
  induction e using inductionOnChildren with
  | step e ih =>
    have hchildren : repeatDepthAll e.children ≤ nesting 0 e := by
      refine Nat.le_of_not_lt fun hlt => ?_
      obtain ⟨c, hc, hlt⟩ := lt_repeatDepthAll.1 hlt
      have hle := nesting_le_of_mem_children he hc
      have hc := ih c hc (Everywhere.of_mem_children he hc)
      omega
    cases e with
    | sequence l | choice l | intersection l => exact hchildren
    | repetition n m g body => exact repeatDepth_repetition_le_nesting n m g body
    | group body | complement body =>
      exact Nat.le_trans (Nat.le_max_left _ _) hchildren
    | _ => exact Nat.zero_le _

end Regex

/-! ## What is read -/

namespace Pattern.Emacs

open Regex

theorem leaves_fitsAtom (levels : Nat) : Leaves (FitsAtom levels) where
  literal := fun _ => fitsAtom_of_flat rfl rfl
  primitive := fun _ => fitsAtom_of_flat (ite_self 0) rfl
  syntaxClass := by
    intro negated k
    cases negated <;> exact fitsAtom_of_flat rfl rfl
  category := by
    intro negated k
    cases negated <;> exact fitsAtom_of_flat rfl rfl
  backref := fun _ _ _ => fitsAtom_of_flat rfl rfl
  brackets := by
    intro text rest e h
    obtain ⟨negated, ms, hn, hms, ht⟩ := exists_bracketTree spellsMembers_brackets.spells h
    exact fitsAtom_bracketTree hn hms ht

/-- What is read with so many levels left can be written as PCRE within them, apart from groups of
    the writer's own. -/
theorem ascent_nesting : Ascent FitsAtom FitsPiece (fun levels e => nesting 0 e ≤ levels) where
  leaves := leaves_fitsAtom
  shy := fitsAtom_shy
  group := fun h => Nat.succ_le_succ h
  repeated := fun he hlt _ h => fitsAtom_repeated he hlt h
  piece := FitsAtom.piece
  seq := nesting_seq_le
  alt := fun _ => nesting_alt_le

end Pattern.Emacs

namespace Regex

open Pattern

theorem nesting_le_of_read {dialect : Dialect} {pattern : String} {e : Regex}
    (h : Regex.parse dialect pattern = .ok e) : nesting 0 e ≤ maxDepth := by
  cases dialect with
  | emacs => exact Emacs.ascent_nesting.parse h
  | pcre => exact nesting_le_of_parse h

/-- **No pattern nests deeper than the limit**: on every way down a tree that was read, from the
    root to any node, there are no more groups than the limit; where the node is a repetition, the
    groups above it and the chain of repetitions that starts there are no more than the limit
    together; and neither are the repetitions of the whole tree. -/
theorem levels_le_of_parse {dialect : Dialect} {pattern : String} {e : Regex}
    (h : Regex.parse dialect pattern = .ok e) :
    (∀ above x, Path e above x → (above ++ [x]).countP isGroup ≤ maxDepth) ∧
      (∀ above n m g body, Path e above (.repetition n m g body) →
        above.countP isGroup + (Regex.repetition n m g body).repeatDepth ≤ maxDepth) ∧
      e.repeatDepth ≤ maxDepth := by
  have hfit := fit_of_parse h
  have hlimit := nesting_le_of_read h
  have hpath : ∀ above x, Path e above x → above.countP isGroup + nesting 0 x ≤ maxDepth :=
    fun above x hx => Nat.le_trans (hx.countP_add_nesting_le hfit) hlimit
  refine ⟨?_, ?_, Nat.le_trans (repeatDepth_le_nesting hfit) hlimit⟩
  · intro above x hx
    have hsingle := countP_isGroup_singleton_le x
    have hle := hpath above x hx
    rw [List.countP_append]
    omega
  · intro above n m g body hx
    have hle := repeatDepth_repetition_le_nesting n m g body
    exact Nat.le_trans (Nat.add_le_add_left hle _) (hpath above _ hx)

/-- Quantifiers on a quoted text and, behind a stray end of quoting, on a group; a character is
    repeated no times. -/
theorem levels_le_of_parse_quoted :
    Regex.parse .pcre "((\\Qab\\E**)\\E+c{0}){2}" = .ok (.repetition 2 (some 2) true
        (.group (.repetition 1 none true (.group (.sequence [.literal ['a'],
          .repetition 0 none true (.repetition 0 none true (.literal ['b']))]))))) ∧
      (Regex.repetition 2 (some 2) true (.group (.repetition 1 none true (.group (.sequence
        [.literal ['a'], .repetition 0 none true (.repetition 0 none true
          (.literal ['b']))]))))).repeatDepth ≤ maxDepth := by
  have hparse : Regex.parse .pcre "((\\Qab\\E**)\\E+c{0}){2}" = .ok (.repetition 2 (some 2) true
      (.group (.repetition 1 none true (.group (.sequence [.literal ['a'],
        .repetition 0 none true (.repetition 0 none true (.literal ['b']))]))))) :=
    parse_eq_of_toOption (by decide +kernel)
  exact ⟨hparse, (levels_le_of_parse hparse).2.2⟩

end Regex

end RegexDialects
