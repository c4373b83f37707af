import RegexDialects.Proofs.Alongside
import RegexDialects.Proofs.Assembly

/-!
# Where a pattern is refused

A refusal names a place of the pattern and a cause. This module shows for what the dialects share,
quantifiers and bracket expressions, that the place is one of the text that was read, and that the
reader has stopped there or behind it (`Fault.IsWithin`); and which causes there are. Most causes
are seen in the text alone (`ParseErrorKind.isTextual`). No cause is that a tree could not be built:
bounds out of order are refused before a repetition is made of them, and what stands in brackets can
be negated.
-/

set_option autoImplicit false

namespace RegexDialects.Pattern

open Regex

/-- Whether a cause is seen in the text alone. The others are numbers that do not fit and braces
    that hold no bounds, groups that were not opened or get no number, and trees that cannot be
    built. -/
def ParseErrorKind.isTextual : ParseErrorKind → Bool
  | badRepetition | undefinedBackref | overflow | construct _ => false
  | _ => true

/-- A refusal of something that starts at a place of `text` and was read from there on. -/
structure Fault.IsWithin (text : List Char) (f : Fault) : Prop where
  start : f.start <:+ text
  cursor : f.cursor <:+ f.start

/-- A refusal at a place of `text`, for a cause that is seen there. -/
structure Fault.IsTextual (text : List Char) (f : Fault) : Prop extends f.IsWithin text where
  kind : f.kind.isTextual = true

namespace Fault

variable {text text' pattern cursor : List Char} {kind : ParseErrorKind} {f : Fault}

theorem IsWithin.of_suffix (h : f.IsWithin text) (hs : text <:+ text') : f.IsWithin text' :=
  ⟨h.start.trans hs, h.cursor⟩

theorem IsTextual.of_suffix (h : f.IsTextual text) (hs : text <:+ text') : f.IsTextual text' :=
  ⟨h.toIsWithin.of_suffix hs, h.kind⟩

/-- What is refused is the text that was read. -/
theorem isTextual_self (hk : kind.isTextual = true) (hc : cursor <:+ text) :
    IsTextual text ⟨kind, text, cursor⟩ :=
  ⟨⟨List.suffix_refl text, hc⟩, hk⟩

/-- The position of an error is that of the place that a refusal names. -/
theorem drop_position_report (h : f.start <:+ pattern) :
    pattern.drop (f.report pattern).position = f.start :=
  (List.suffix_iff_eq_drop.1 h).symm

end Fault

variable {text rest whole : List Char} {f : Fault}

/-! ## Quantifiers -/

/-- A row of quantifiers is refused for one that cannot be read, or for how it stands in the row. -/
theorem quantified_eq_error {g : QuantifierGrammar} {budget : Nat} {e : Regex}
    (h : quantified g budget e text = .error f) :
    (∃ text', text' <:+ text ∧ g.read? text' = .error f) ∨ f.IsTextual text := by
  induction budget generalizing e text with
  | zero =>
    unfold quantified at h
    split at h
    · next hr =>
      cases h
      exact Or.inl ⟨_, g.skip_suffix _, hr⟩
    · cases h
    · next hr =>
      have hrest := g.read?_suffix hr
      split at h <;> cases h <;> exact Or.inr ⟨⟨g.skip_suffix _, hrest⟩, rfl⟩
  | succ budget ih =>
    unfold quantified at h
    split at h
    · next hr =>
      cases h
      exact Or.inl ⟨_, g.skip_suffix _, hr⟩
    · cases h
    · next q mid hr =>
      split at h
      · cases h
        exact Or.inr ⟨⟨g.skip_suffix _, g.read?_suffix hr⟩, rfl⟩
      · next hinv =>
        -- Bounds in order make a repetition.
        simp only [repeated_eq_apply (Bool.eq_false_iff.2 hinv)] at h
        have hs := (g.read?_suffix hr).trans (g.skip_suffix text)
        rcases ih h with ⟨text', hs', hr'⟩ | hf
        · exact Or.inl ⟨text', hs'.trans hs, hr'⟩
        · exact Or.inr (hf.of_suffix hs)

/-! ## Bracket expressions -/

theorem readClass?_eq_error {negatable : Bool} (h : readClass? negatable text = .error f) :
    f.IsTextual text := by
  unfold readClass? at h
  split at h
  · cases h
    exact Fault.isTextual_self rfl (List.suffix_refl _)
  · cases h
    exact Fault.isTextual_self rfl (List.suffix_refl _)
  · next body =>
    split at h
    · next rest hbody =>
      split at h
      · cases h
      · cases h
        have hclose : ':' :: ']' :: rest <:+ body := hbody ▸ List.dropWhile_suffix _
        have hrest := ((List.suffix_cons ']' rest).trans (List.suffix_cons ':' _)).trans hclose
        exact Fault.isTextual_self rfl
          (hrest.trans ((List.suffix_cons ':' _).trans (List.suffix_cons '[' _)))
    · cases h
  · cases h

/-- What is read between brackets makes a tree, also if it is negated. -/
theorem bracketTree_ne_error (negated : Bool) (ms : List Member) (cause : ConstructError) :
    bracketTree negated (ms.map Member.tree) ≠ .error cause := by
  intro h
  cases negated with
  | true =>
    rw [bracketTree_negated] at h
    cases h
  | false => cases h

namespace BracketGrammar

variable {g : BracketGrammar}

/-- Whether an item is refused only for what is seen in the text of the expression. -/
def RefusesTextually (g : BracketGrammar) : Prop :=
  ∀ ⦃whole text f⦄, text <:+ whole → g.atom whole text = .error f → f.IsTextual whole

section

variable (hg : g.RefusesTextually) (hs : text <:+ whole)

include hg hs

theorem rangeEnd_eq_error {start : List Char} (hstart : start <:+ whole) (hlo : text <:+ start)
    {lo : Char} (h : g.rangeEnd whole start lo text = .error f) : f.IsTextual whole := by
  unfold rangeEnd at h
  split at h
  · next ha =>
    cases h
    exact hg hs ha
  · next ha =>
    split at h
    · cases h
    · cases h
      exact ⟨⟨hstart, (g.atom_advances ha).1.trans hlo⟩, rfl⟩
  · next ha =>
    cases h
    exact ⟨⟨hstart, (g.atom_advances ha).1.trans hlo⟩, rfl⟩

theorem item_eq_error (h : g.item whole text = .error f) : f.IsTextual whole := by
  unfold item at h
  split at h
  · next ha =>
    cases h
    exact hg hs ha
  · cases h
  · next ha =>
    have hrest := (g.atom_advances ha).1
    split at h
    · split at h
      · cases h
      · have hend := (List.suffix_cons _ _).trans hrest
        exact rangeEnd_eq_error hg (hend.trans hs) hs hend h
    · cases h

theorem member?_eq_error {first : Bool} (h : g.member? whole first text = .error f) :
    f.IsTextual whole := by
  unfold member? at h
  split at h
  · cases h
    exact Fault.isTextual_self rfl hs
  · split at h
    · cases h
    · split at h
      · next hc =>
        cases h
        exact (readClass?_eq_error hc).of_suffix hs
      · cases h
      · split at h
        · next hi =>
          cases h
          exact item_eq_error hg hs hi
        · cases h

theorem members_eq_error {first : Bool} (h : g.members whole first text = .error f) :
    f.IsTextual whole := by
  induction hn : text.length using Nat.strongRecOn generalizing first text with
  | _ n ih =>
    unfold members at h
    split at h
    · next hm =>
      cases h
      exact member?_eq_error hg hs hm
    · cases h
    · next hm =>
      have a := g.member?_advances hm
      split at h
      · next hl =>
        cases h
        exact ih _ (hn ▸ a.2) (a.1.trans hs) hl rfl
      · cases h

end

/-- A bracket expression is refused only for what is seen in its text. -/
theorem read_eq_error (hg : g.RefusesTextually) (hm : g.SpellsMembers)
    (h : g.read text = .error f) : f.IsTextual ('[' :: text) := by
  simp only [read] at h
  split at h
  · next hl =>
    cases h
    exact members_eq_error hg ((caret?_suffix text).trans (List.suffix_cons _ _)) hl
  · next hl =>
    obtain ⟨ms, rfl, -⟩ := exists_members hm.spells hl
    split at h
    · next hcause => exact absurd hcause (bracketTree_ne_error _ ms _)
    · cases h

end BracketGrammar

end RegexDialects.Pattern
