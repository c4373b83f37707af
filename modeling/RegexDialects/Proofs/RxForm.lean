import RegexDialects.Proofs.CaptureOrder
import RegexDialects.Proofs.Invariant

/-!
# What was read as Emacs has an `rx` form

The `rx` form has no words for an intersection, and few for a lazy repetition; for all else it has
some. Which trees it can say is therefore a matter of their nodes (`Form.Rx.exists_render_iff`).

A tree that was read as Emacs has no such nodes. Its brackets hold characters, ranges and named
classes but no complements of classes, so that a negated bracket is one complement
(`exists_set_of_brackets`); and only the operators `*`, `+` and `?` can be lazy, whatever stands
before or behind them. The rest of what the reader puts together has no nodes of the two sorts of
its own.
-/

set_option autoImplicit false

namespace RegexDialects

namespace Regex

/-! ## Properties that most nodes have -/

/-- A property of nodes that asks nothing of those that sequences and choices bring with them. -/
structure Lenient (P : Regex → Prop) : Prop where
  empty : P .empty
  literal : ∀ t, P (.literal t)
  sequence : ∀ l, P (.sequence l)
  choice : ∀ l, P (.choice l)
  set : ∀ s, P (.set s)

section Lenient

variable {P : Regex → Prop} {l : List Regex}

theorem everywhere_of_mem_parts {e x : Regex} (h : e.Everywhere P) (hx : x ∈ e.parts) :
    x.Everywhere P := by
  induction e using inductionOn with
  | empty => exact absurd hx List.not_mem_nil
  | sequence l ih =>
    rw [parts, partsAll_eq_flatMap, List.mem_flatMap] at hx
    obtain ⟨e, he, hx⟩ := hx
    exact ih e he ((everywhere_sequence.1 h).2 e he) hx
  | _ => exact List.mem_singleton.1 hx ▸ h

theorem Lenient.everywhere_seq (hP : Lenient P) (hl : ∀ e ∈ l, e.Everywhere P) :
    (seq l).Everywhere P := by
  have hparts : ∀ x ∈ partsAll l, x.Everywhere P := by
    intro x hx
    rw [partsAll_eq_flatMap, List.mem_flatMap] at hx
    obtain ⟨e, he, hx⟩ := hx
    exact everywhere_of_mem_parts (hl e he) hx
  have hjoined : ∀ x ∈ joinText (partsAll l), x.Everywhere P := by
    refine forall_mem_joinText ?_ hparts
    intro t u _
    exact everywhere_literal.2 (hP.literal _)
  rw [seq_eq_ofParts]
  match joinText (partsAll l), hjoined with
  | [], _ => exact everywhere_empty.2 hP.empty
  | [e], h => exact h e List.mem_cons_self
  | e :: f :: m, h => exact everywhere_sequence.2 ⟨hP.sequence _, h⟩

theorem everywhere_of_mem_branches {e x : Regex} (h : e.Everywhere P) (hx : x ∈ e.branches) :
    x.Everywhere P := by
  rcases mem_branches hx with ⟨l, rfl, hx⟩ | ⟨rfl, -⟩
  · exact (everywhere_choice.1 h).2 x hx
  · exact h

theorem Lenient.everywhere_alt (hP : Lenient P) (hl : ∀ e ∈ l, e.Everywhere P) :
    (alt l).Everywhere P := by
  have hbranches : ∀ x ∈ l.flatMap branches, x.Everywhere P := by
    intro x hx
    obtain ⟨e, he, hx⟩ := List.mem_flatMap.1 hx
    exact everywhere_of_mem_branches (hl e he) hx
  rw [alt_eq_ofBranches]
  match l.flatMap branches, hbranches with
  | [], _ => exact everywhere_set.2 (hP.set _)
  | [e], h => exact h e List.mem_cons_self
  | e :: f :: m, h =>
    cases hm : (e :: f :: m).mapM plainSet? with
    | some sets =>
      rw [ofBranches_of_plain hm]
      exact everywhere_set.2 (hP.set _)
    | none =>
      rw [ofBranches_of_not_plain hm]
      exact everywhere_choice.2 ⟨hP.choice _, h⟩

end Lenient

/-! ## What `rx` can say -/

/-- Whether the bounds are those of `*`, `+` or `?`. -/
def IsOperator (least : Nat) (most : Option Nat) : Prop :=
  (least = 0 ∧ most = none) ∨ (least = 1 ∧ most = none) ∨ (least = 0 ∧ most = some 1)

/-- Whether `rx` has words for a node. -/
def IsSayable : Regex → Prop
  | .intersection _ => False
  | .repetition least most false _ => IsOperator least most ∨ most = some least
  | _ => True

end Regex

namespace Form.Rx

open Regex

/-- What `lazyForm` says is what the bounds of an operator or an exact count say. -/
theorem exists_lazyForm_iff {least : Nat} {most : Option Nat} {body : List Char} :
    (∃ text, lazyForm least most body = .ok text) ↔
      IsOperator least most ∨ most = some least := by
  unfold lazyForm
  split
  · exact ⟨fun _ => Or.inl (Or.inl ⟨rfl, rfl⟩), fun _ => ⟨_, rfl⟩⟩
  · exact ⟨fun _ => Or.inl (Or.inr (Or.inl ⟨rfl, rfl⟩)), fun _ => ⟨_, rfl⟩⟩
  · exact ⟨fun _ => Or.inl (Or.inr (Or.inr ⟨rfl, rfl⟩)), fun _ => ⟨_, rfl⟩⟩
  · next n m hopt =>
    split
    · next hnm => exact ⟨fun _ => Or.inr (hnm ▸ rfl), fun _ => ⟨_, rfl⟩⟩
    · next hnm =>
      refine ⟨fun ⟨_, h⟩ => (nomatch h), ?_⟩
      rintro ((⟨-, h⟩ | ⟨-, h⟩ | ⟨rfl, h⟩) | h)
      · cases h
      · cases h
      · cases h
        exact absurd rfl (hopt rfl)
      · cases h
        exact absurd rfl hnm
  · next hzero hone =>
    refine ⟨fun ⟨_, h⟩ => (nomatch h), ?_⟩
    rintro ((⟨rfl, -⟩ | ⟨rfl, -⟩ | ⟨-, h⟩) | h)
    · exact absurd rfl hzero
    · exact absurd rfl hone
    · cases h
    · cases h

/-- A list of trees has an `rx` form if every one of them has one. -/
theorem exists_renderAll_iff {l : List Regex} :
    (∃ texts, renderAll l = .ok texts) ↔ ∀ e ∈ l, ∃ text, render e = .ok text := by
  rw [renderAll_eq_mapM]
  exact exists_mapM_eq_ok_iff

theorem exists_render_set (s : CharSet) : ∃ text, render (.set s) = .ok text := by
  unfold render
  split
  · exact ⟨_, rfl⟩
  · split <;> exact ⟨_, rfl⟩

theorem exists_render_complement_iff {e : Regex} :
    (∃ text, render (.complement e) = .ok text) ↔ ∃ text, render e = .ok text := by
  cases e with
  | set s =>
    -- The set under a complement has a form of its own, without a string for one character.
    refine ⟨fun _ => exists_render_set s, fun _ => ?_⟩
    unfold render
    split <;> exact ⟨_, rfl⟩
  | _ => exact exists_bind_eq_ok_iff

/-- **`rx` can say a tree if and only if it has words for all of its nodes.** -/
theorem exists_render_iff {e : Regex} :
    (∃ text, render e = .ok text) ↔ e.Everywhere IsSayable := by
  induction e using inductionOn with
  | empty => exact ⟨fun _ => everywhere_empty.2 trivial, fun _ => ⟨_, rfl⟩⟩
  | literal t => exact ⟨fun _ => everywhere_literal.2 trivial, fun _ => ⟨_, rfl⟩⟩
  | primitive p => exact ⟨fun _ => everywhere_primitive.2 trivial, fun _ => ⟨_, rfl⟩⟩
  | sequence l ih =>
    rw [everywhere_sequence, ← forall₂_congr ih, ← exists_renderAll_iff]
    exact exists_bind_eq_ok_iff.trans (and_iff_right trivial).symm
  | choice l ih =>
    rw [everywhere_choice, ← forall₂_congr ih, ← exists_renderAll_iff]
    exact exists_bind_eq_ok_iff.trans (and_iff_right trivial).symm
  | repetition n m g e ih =>
    rw [everywhere_repetition, ← ih]
    constructor
    · rintro ⟨text, h⟩
      obtain ⟨body, hbody, h⟩ := bind_eq_ok_iff.1 h
      refine ⟨?_, body, hbody⟩
      cases g with
      | true => trivial
      | false => exact exists_lazyForm_iff.1 ⟨text, h⟩
    · rintro ⟨hsay, body, hbody⟩
      cases g with
      | true => exact ⟨_, bind_eq_ok_iff.2 ⟨body, hbody, rfl⟩⟩
      | false =>
        obtain ⟨text, h⟩ := exists_lazyForm_iff.2 hsay
        exact ⟨text, bind_eq_ok_iff.2 ⟨body, hbody, h⟩⟩
  | group e ih =>
    rw [everywhere_group, ← ih]
    exact exists_bind_eq_ok_iff.trans (and_iff_right trivial).symm
  | backref n => exact ⟨fun _ => everywhere_backref.2 trivial, fun _ => ⟨_, rfl⟩⟩
  | syntaxClass k => exact ⟨fun _ => everywhere_syntaxClass.2 trivial, fun _ => ⟨_, rfl⟩⟩
  | category k => exact ⟨fun _ => everywhere_category.2 trivial, fun _ => ⟨_, rfl⟩⟩
  | set s => exact ⟨fun _ => everywhere_set.2 trivial, fun _ => exists_render_set s⟩
  | complement e ih =>
    rw [everywhere_complement, ← ih]
    exact exists_render_complement_iff.trans (and_iff_right trivial).symm
  | intersection l _ =>
    refine ⟨fun ⟨_, h⟩ => (nomatch h), ?_⟩
    intro h
    exact (everywhere_intersection.1 h).1.elim

end Form.Rx

/-! ## What an Emacs pattern is made of -/

namespace Regex

/-- Whether a node can stand in a tree that was read as Emacs, as far as `rx` cares: it is no
    intersection, and no lazy repetition but that of an operator. -/
def InEmacs : Regex → Prop
  | .intersection _ => False
  | .repetition least most false _ => IsOperator least most
  | _ => True

theorem lenient_inEmacs : Lenient InEmacs where
  empty := trivial
  literal := fun _ => trivial
  sequence := fun _ => trivial
  choice := fun _ => trivial
  set := fun _ => trivial

theorem InEmacs.isSayable {e : Regex} (h : e.InEmacs) : e.IsSayable := by
  cases e with
  | repetition n m g e =>
    cases g with
    | true => trivial
    | false => exact Or.inl h
  | intersection l => exact h
  | _ => trivial

/-- A union of sets is a set. -/
theorem exists_set_eq_union {l : List Regex} (hl : ∀ e ∈ l, ∃ s, e = .set s) :
    ∃ s, union l = .set s := by
  cases l with
  | nil => exact ⟨.empty, rfl⟩
  | cons e l =>
    obtain ⟨s, rfl⟩ := hl e List.mem_cons_self
    have hplain : ∀ x ∈ l, isSymbolic x ≠ true := by
      intro x hx
      obtain ⟨t, rfl⟩ := hl x (List.mem_cons_of_mem _ hx)
      exact Bool.noConfusion
    have hrest : ((set s :: l).dropWhile isSymbolic).filter isSymbolic = [] := by
      rw [List.dropWhile_cons_of_neg Bool.noConfusion, List.filter_cons_of_neg Bool.noConfusion]
      exact List.filter_eq_nil_iff.2 hplain
    rw [union_of_filterMap_eq_cons (List.filterMap_cons_some rfl),
      List.takeWhile_cons_of_neg Bool.noConfusion, hrest]
    exact ⟨_, alt_singleton trivial⟩

end Regex

namespace Pattern.Emacs

open Regex

/-- The members of a bracket expression are the items of a set. -/
theorem spells_brackets : brackets.Spells fun m => ∃ i, m = .item i where
  char := fun c => ⟨.char c, rfl⟩
  range := fun {lo hi} _ => ⟨.range lo hi, rfl⟩
  named := by
    intro name e h
    unfold namedClass? at h
    split at h
    · -- The name of a class is not negated here.
      cases h
    · obtain ⟨k, -, rfl⟩ := Option.map_eq_some_iff.1 h
      exact ⟨_, ⟨.posix k, rfl⟩, rfl⟩
  tree := by
    intro whole text rest e h
    obtain _ | ⟨c, text⟩ := text
    · cases h
    · cases h

/-- A bracket expression is a set or, if it is negated, one complement of a set. -/
theorem exists_set_of_brackets {text rest : List Char} {e : Regex}
    (h : brackets.read text = .ok (e, rest)) : ∃ s, e = .set s ∨ e = .complement (.set s) := by
  obtain ⟨negated, ms, -, hall, ht⟩ := exists_bracketTree spells_brackets h
  cases negated with
  | false =>
    cases ht
    have hsets : ∀ x ∈ ms.map Member.tree, ∃ s, x = .set s := by
      intro x hx
      obtain ⟨m, hm, rfl⟩ := List.mem_map.1 hx
      obtain ⟨i, rfl⟩ := hall m hm
      exact ⟨_, rfl⟩
    obtain ⟨s, hs⟩ := exists_set_eq_union hsets
    exact ⟨s, Or.inl hs⟩
  | true =>
    -- Nothing is required of a character but not to be one of the items.
    have hrequired : required (ms.map Member.opposite) = [] := by
      apply List.filterMap_eq_nil_iff.2
      intro c hc
      obtain ⟨m, hm, rfl⟩ := List.mem_map.1 hc
      obtain ⟨i, rfl⟩ := hall m hm
      rfl
    rw [bracketTree_negated, conjunction_of_required_eq_nil hrequired] at ht
    cases ht
    exact ⟨_, Or.inr rfl⟩

theorem isOperator_of_operatorBounds? {c : Char} {least : Nat} {most : Option Nat}
    (h : operatorBounds? c = some (least, most)) : IsOperator least most := by
  unfold operatorBounds? at h
  split at h
  · cases h
    exact Or.inl ⟨rfl, rfl⟩
  · split at h
    · cases h
      exact Or.inr (Or.inl ⟨rfl, rfl⟩)
    · split at h
      · cases h
        exact Or.inr (Or.inr ⟨rfl, rfl⟩)
      · cases h

/-- A lazy quantifier is an operator. -/
theorem isOperator_of_readQuantifier? {text rest : List Char} {q : Quantifier}
    (h : readQuantifier? text = .ok (some (q, rest))) (hq : q.greedy = false) :
    IsOperator q.least q.most := by
  unfold readQuantifier? at h
  split at h
  · split at h
    · simp at h
    · simp at h
    · -- Bounds in braces are greedy.
      cases h
      cases hq
  · split at h
    · next ho =>
      cases h
      exact isOperator_of_operatorBounds? ho
    · simp at h
  · simp at h

theorem product_inEmacs : Product fun e => e.Everywhere InEmacs where
  literal := fun _ => everywhere_literal.2 trivial
  primitive := fun _ => everywhere_primitive.2 trivial
  syntaxClass := by
    intro negated k
    cases negated with
    | false => exact everywhere_syntaxClass.2 trivial
    | true => exact everywhere_complement.2 ⟨trivial, everywhere_syntaxClass.2 trivial⟩
  category := by
    intro negated k
    cases negated with
    | false => exact everywhere_category.2 trivial
    | true => exact everywhere_complement.2 ⟨trivial, everywhere_category.2 trivial⟩
  backref := fun _ _ _ => everywhere_backref.2 trivial
  brackets := by
    intro text rest e h
    rcases exists_set_of_brackets h with ⟨s, rfl | rfl⟩
    · exact everywhere_set.2 trivial
    · exact everywhere_complement.2 ⟨trivial, everywhere_set.2 trivial⟩
  group := fun _ h => everywhere_group.2 ⟨trivial, h⟩
  repeated := by
    intro text rest q e e' he hq h
    have hrepetition : (Regex.repetition q.least q.most q.greedy e).Everywhere InEmacs := by
      refine everywhere_repetition.2 ⟨?_, he⟩
      cases hg : q.greedy with
      | true => trivial
      | false => exact isOperator_of_readQuantifier? hq hg
    rcases repeated_cases h with ⟨-, rfl⟩ | ⟨-, rfl⟩
    · exact everywhere_empty.2 trivial
    · exact hrepetition
  seq := fun _ h => lenient_inEmacs.everywhere_seq h
  alt := fun _ _ h => lenient_inEmacs.everywhere_alt h

end Pattern.Emacs

namespace Regex

/-- **Every tree that was read as Emacs has an `rx` form**: it holds no intersection, and no lazy
    repetition with other bounds than those of `*`, `+` and `?`. -/
theorem render_rx_of_parse {pattern : String} {e : Regex}
    (h : Regex.parse .emacs pattern = .ok e) :
    (∃ text, e.render .rx = .ok text) ∧
      ∀ x ∈ e.nodes, (∀ l, x ≠ .intersection l) ∧
        ∀ least most body, x = .repetition least most false body → IsOperator least most := by
  have hnodes : e.Everywhere InEmacs := Pattern.Emacs.keeps_parse Pattern.Emacs.product_inEmacs h
  constructor
  · obtain ⟨text, htext⟩ := Form.Rx.exists_render_iff.2 (hnodes.imp fun _ => InEmacs.isSayable)
    refine ⟨String.ofList text, ?_⟩
    have hform : Form.text .rx e = .ok text := htext
    unfold Regex.render
    rw [hform]
  · intro x hx
    have hin := hnodes x hx
    constructor
    · rintro l rfl
      exact hin
    · rintro least most body rfl
      exact hin

/-- `[^a-c[:digit:]]*?\S-\{2\}??`: a negated bracket, a lazy operator, and one behind braces. -/
theorem render_rx_of_parse_lazy :
    Regex.parse .emacs "[^a-c[:digit:]]*?\\S-\\\x7b2\\\x7d??" = .ok (.sequence [
        .repetition 0 none false (.complement (.set ⟨[], [('a', 'c')], [.digit]⟩)),
        .repetition 0 (some 1) false
          (.repetition 2 (some 2) true (.complement (.syntaxClass .whitespace)))]) ∧
      ∃ text, Regex.render .rx (.sequence [
        .repetition 0 none false (.complement (.set ⟨[], [('a', 'c')], [.digit]⟩)),
        .repetition 0 (some 1) false
          (.repetition 2 (some 2) true (.complement (.syntaxClass .whitespace)))]) = .ok text := by
  have hparse : Regex.parse .emacs "[^a-c[:digit:]]*?\\S-\\\x7b2\\\x7d??" = .ok (.sequence [
      .repetition 0 none false (.complement (.set ⟨[], [('a', 'c')], [.digit]⟩)),
      .repetition 0 (some 1) false
        (.repetition 2 (some 2) true (.complement (.syntaxClass .whitespace)))]) :=
    parse_eq_of_toOption (by decide +kernel)
  exact ⟨hparse, (render_rx_of_parse hparse).1⟩

end Regex

end RegexDialects
