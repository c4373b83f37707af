import RegexDialects.Proofs.Braces
import RegexDialects.Proofs.Faults
import RegexDialects.Proofs.PcreAssembly

/-!
# Where a pattern of PCRE is refused

The same way down as in `Pattern/Pcre/Expression.lean`, on the side of the refusals (`Refused`): a
refusal is at a place of the text that was read, and for a cause that is seen there, or for a number
in braces that does not fit. No group is missing, since a reference to one that was not opened is
read as something else, and no tree fails to be built.
-/

set_option autoImplicit false

namespace RegexDialects.Pattern.Pcre

open Regex

/-- A refusal at a place of `text`. -/
inductive Refused (text : List Char) (f : Fault) : Prop where
  | textual (h : f.IsTextual text)
  /-- A number behind an opening brace does not fit. -/
  | number {body : List Char} (hs : '{' :: body <:+ text) (hstart : f.start = '{' :: body)
      (hcursor : f.cursor <:+ body) (hkind : f.kind = .badRepetition) (hfit : ¬ NumbersFit body)

variable {text text' rest whole start : List Char} {f : Fault} {levels : Nat} {flags : Flags}
  {cur : Cursor}

/-- What is refused in the rest of a text is refused in the text. -/
theorem Refused.of_suffix (h : Refused text f) (hs : text <:+ text') : Refused text' f := by
  cases h with
  | textual h => exact .textual (h.of_suffix hs)
  | number hs' hstart hcursor hkind hfit => exact .number (hs'.trans hs) hstart hcursor hkind hfit

/-- A refusal starts at a place of the text, and the reader has stopped there or behind it. -/
theorem Refused.isWithin (h : Refused text f) : f.IsWithin text := by
  cases h with
  | textual h => exact h.toIsWithin
  | number hs hstart hcursor _ _ =>
    exact ⟨hstart ▸ hs, hstart ▸ hcursor.trans (List.suffix_cons _ _)⟩

theorem Refused.start_suffix (h : Refused text f) : f.start <:+ text :=
  h.isWithin.start

/-! ## Escapes and brackets -/

section

variable (hs : text <:+ start)

include hs

/-- What stands in the braces of `\x` must be hexadecimal digits, and the braces must close. -/
theorem bracedDigits_eq_error (h : bracedDigits start text = .error f) :
    f.IsTextual start := by
  induction text with
  | nil =>
    cases h
    exact Fault.isTextual_self rfl List.nil_suffix
  | cons c text ih =>
    have hrest := (List.suffix_cons c text).trans hs
    -- However far the digits go, the refusal names the backslash.
    unfold bracedDigits at h
    split at h
    · cases h
    · split at h
      · cases h
        exact Fault.isTextual_self rfl hrest
      · split at h
        · next hb =>
          cases h
          exact ih hrest hb
        · cases h

/-- In braces the digits may also make a number that no character has. Without braces there may be
    no digits at all, so nothing is refused. -/
theorem hexChar_eq_error (h : hexChar start text = .error f) : f.IsTextual start := by
  unfold hexChar at h
  split at h
  · have hbody := (List.suffix_cons _ _).trans hs
    split at h
    · next hb =>
      cases h
      exact bracedDigits_eq_error hbody hb
    · next hb =>
      split at h
      · cases h
      · cases h
        exact Fault.isTextual_self rfl ((bracedDigits_suffix hb).trans hbody)
  · cases h

/-- There is a control character only for characters of ASCII. -/
theorem controlChar_eq_error (h : controlChar start text = .error f) : f.IsTextual start := by
  unfold controlChar at h
  split at h
  · cases h
    exact Fault.isTextual_self rfl List.nil_suffix
  · split at h
    · cases h
    · cases h
      exact Fault.isTextual_self rfl ((List.suffix_cons _ _).trans hs)

/-- Letters and digits without a meaning are refused. What is neither stands for itself. -/
theorem escapedChar_eq_error {c : Char} (h : escapedChar start c text = .error f) :
    f.IsTextual start := by
  unfold escapedChar at h
  split at h
  · cases h
  · split at h
    · exact hexChar_eq_error hs h
    · split at h
      · exact controlChar_eq_error hs h
      · split at h
        · cases h
          exact Fault.isTextual_self rfl hs
        · cases h

end

/-- An escape is refused from its backslash on. A reference never is: if there is no such group, the
    digits are read as something else. -/
theorem escape_eq_error {groups : Nat} (h : escape groups text = .error f) :
    f.IsTextual ('\\' :: text) := by
  simp only [escape] at h
  split at h
  · cases h
    exact Fault.isTextual_self rfl List.nil_suffix
  · next c rest =>
    have hrest := (List.suffix_cons c rest).trans (List.suffix_cons '\\' _)
    -- Digits, assertions, quotations, their end marks and classes are all accepted.
    split at h
    · cases h
    · split at h
      · cases h
      · split at h
        · cases h
        · split at h
          · cases h
          · split at h
            · cases h
            · split at h
              · next he =>
                cases h
                exact escapedChar_eq_error hrest he
              · cases h

/-- An escape in brackets is refused at its backslash, or the brackets are if the pattern ends
    there. -/
theorem bracketEscape_eq_error (hs : '\\' :: text <:+ whole)
    (h : bracketEscape whole text = .error f) : f.IsTextual whole := by
  unfold bracketEscape at h
  split at h
  · cases h
    exact Fault.isTextual_self rfl List.nil_suffix
  · next c rest =>
    have hrest := (List.suffix_cons c rest).trans (List.suffix_cons '\\' _)
    split at h
    · cases h
    · split at h
      · cases h
      · split at h
        · cases h
        · split at h
          · cases h
          · split at h
            · next he =>
              cases h
              exact (escapedChar_eq_error hrest he).of_suffix hs
            · cases h

theorem refusesTextually_brackets : brackets.RefusesTextually := by
  intro whole text f hs h
  change bracketAtom whole text = _ at h
  unfold bracketAtom at h
  split at h
  · cases h
    exact Fault.isTextual_self rfl List.nil_suffix
  · exact bracketEscape_eq_error hs h
  · cases h

/-! ## Openings of groups -/

namespace Opening

section

variable (hs : text <:+ whole)

include hs

theorem commentEnd_eq_error (h : commentEnd whole text = .error f) : f.IsTextual whole := by
  induction text with
  | nil =>
    cases h
    exact Fault.isTextual_self rfl List.nil_suffix
  | cons c text ih =>
    unfold commentEnd at h
    split at h
    · cases h
    · exact ih ((List.suffix_cons c text).trans hs) h

theorem nameEnd_eq_error {close : Char} (h : nameEnd whole close text = .error f) :
    f.IsTextual whole := by
  induction text with
  | nil =>
    cases h
    exact Fault.isTextual_self rfl List.nil_suffix
  | cons c text ih =>
    have hrest := (List.suffix_cons c text).trans hs
    unfold nameEnd at h
    split at h
    · cases h
    · split at h
      · exact ih hrest h
      · cases h
        exact Fault.isTextual_self rfl hrest

theorem flagsEnd_eq_error {on : Bool} (h : flagsEnd whole on flags text = .error f) :
    f.IsTextual whole := by
  induction text generalizing on flags with
  | nil =>
    cases h
    exact Fault.isTextual_self rfl List.nil_suffix
  | cons c text ih =>
    have hrest := (List.suffix_cons c text).trans hs
    unfold flagsEnd at h
    split at h
    · exact ih hrest h
    · split at h
      · exact ih hrest h
      · split at h
        · exact ih hrest h
        · split at h
          · cases h
          · split at h
            · cases h
            · cases h
              exact Fault.isTextual_self rfl hrest

/-- What follows `(?` is refused for its sort, or because a comment, a name or flags do not end. -/
theorem special_eq_error (h : special whole flags text = .error f) : f.IsTextual whole := by
  have hwhole : Fault.IsTextual whole ⟨.unsupportedGroup, whole, text⟩ :=
    Fault.isTextual_self rfl hs
  unfold special at h
  -- The cases are those of the reader, in its order.
  split at h
  · exact commentEnd_eq_error ((List.suffix_cons _ _).trans hs) h
  · cases h
  · cases h
    exact hwhole
  · cases h
    exact hwhole
  · exact nameEnd_eq_error ((List.suffix_cons _ _).trans hs) h
  · exact nameEnd_eq_error ((List.suffix_cons _ _).trans hs) h
  · exact nameEnd_eq_error (((List.suffix_cons _ _).trans (List.suffix_cons _ _)).trans hs) h
  · cases h
    exact hwhole
  · cases h
    exact hwhole
  · split at h
    · exact flagsEnd_eq_error hs h
    · cases h
      exact hwhole
  · cases h
    exact hwhole

theorem read_eq_error (h : read whole flags text = .error f) : f.IsTextual whole := by
  unfold read at h
  split at h
  · cases h
    exact Fault.isTextual_self rfl hs
  · exact special_eq_error ((List.suffix_cons _ _).trans hs) h
  · cases h

end

end Opening

/-! ## Quantifiers -/

/-- A quantifier with a plus sign behind it is refused, since a possessive one has no tree. -/
theorem marked_eq_error (hs : text <:+ start) {least : Nat} {most : Option Nat}
    (h : marked start least most text = .error f) : f.IsTextual start := by
  have hmark := greedyMark_suffix text
  unfold marked at h
  split at h
  · next heq =>
    -- The plus sign may stand behind a `?`.
    cases h
    rw [heq] at hmark
    exact Fault.isTextual_self rfl (hmark.trans hs)
  · cases h

/-- Braces that hold no bounds are no quantifier here, so they are refused only for a number that
    does not fit. -/
theorem refused_readQuantifier? (h : readQuantifier? text = .error f) : Refused text f := by
  unfold readQuantifier? at h
  split at h
  · split at h
    · next hb =>
      cases h
      obtain ⟨hkind, hstart, hfit⟩ := Bounds.read?_eq_error hb
      exact .number (List.suffix_refl _) hstart (Bounds.read?_cursor_suffix hb) hkind hfit
    · cases h
    · next hb =>
      split at h
      · cases h
      · exact .textual
          (marked_eq_error ((Bounds.read?_suffix hb).trans (List.suffix_cons _ _)) h)
  · split at h
    · exact .textual (marked_eq_error (List.suffix_cons _ _) h)
    · cases h
  · cases h

/-- A piece is refused for its quantifiers, after its atom has been accepted. -/
theorem refused_addPiece {pieces : List Regex} {e : Regex}
    (h : addPiece levels flags pieces e cur = .error f) : Refused cur.rest f := by
  unfold addPiece at h
  split at h
  · next hq =>
    cases h
    rcases quantified_eq_error hq with ⟨text, hs, hr⟩ | hf
    · exact (refused_readQuantifier? hr).of_suffix hs
    · -- The row is too long, or bounds are out of order.
      exact .textual hf
  · cases h

theorem refused_addAtom {done : Progress} {a : Atom} (h : addAtom levels done a cur = .error f) :
    Refused cur.rest f := by
  unfold addAtom at h
  split at h
  · cases h
  · exact refused_addPiece h
  · split at h
    · cases h
    · exact refused_addPiece h
  · split at h
    · cases h
    · exact refused_addPiece h

/-! ## Atoms -/

/-- A reader whose refusals are at places of the text. -/
def Inside.Refuses (inside : Inside) : Prop :=
  ∀ ⦃flags cur f⦄, inside.read flags cur = .error f → Refused cur.rest f

/-- A group is refused for what stands in it, or because it does not close. -/
theorem refused_groupBody {inside : Inside} (hi : inside.Refuses) (hs : cur.rest <:+ whole)
    (h : groupBody inside whole flags cur = .error f) : Refused whole f := by
  unfold groupBody at h
  split at h
  · next hb =>
    cases h
    exact (hi hb).of_suffix hs
  · cases h
  · next hb =>
    cases h
    exact .textual (Fault.isTextual_self rfl ((inside.read_suffix hb).trans hs))

/-- With no level left a group is refused for its nesting, before anything in it is read. -/
theorem refused_group (hi : ∀ n < levels, (expression n).Refuses)
    (h : group (below levels) flags cur = .error f) : Refused ('(' :: cur.rest) f := by
  cases levels with
  | zero =>
    cases h
    exact .textual (Fault.isTextual_self rfl (List.suffix_cons _ _))
  | succ levels =>
    have hi := hi levels (Nat.lt_succ_self levels)
    simp only [group, below] at h
    split at h
    · next ho =>
      cases h
      exact .textual (Opening.read_eq_error (List.suffix_cons _ _) ho)
    · cases h
    · cases h
    -- Whether it captures makes no difference to what a group is refused for.
    · next ho =>
      have hs := (Opening.read_suffix ho).trans (List.suffix_cons '(' _)
      split at h
      · next hb =>
        cases h
        exact refused_groupBody hi hs hb
      · cases h
    · next ho =>
      have hs := (Opening.read_suffix ho).trans (List.suffix_cons '(' _)
      split at h
      · next hb =>
        cases h
        exact refused_groupBody hi hs hb
      · cases h

theorem refused_atom (hi : ∀ n < levels, (expression n).Refuses)
    (h : atom (below levels) flags cur = .error f) : Refused cur.rest f := by
  unfold atom at h
  split at h
  · cases h
    exact .textual ⟨⟨List.nil_suffix, List.suffix_refl _⟩, rfl⟩
  · next c rest hr =>
    rw [hr]
    -- Groups, brackets and escapes are left to readers of their own. Of single characters, only an
    -- operator with nothing in front of it is refused.
    split at h
    · next hc => exact hc ▸ refused_group hi h
    · split at h
      · next hc =>
        split at h
        · next hb =>
          cases h
          exact hc ▸ .textual
            (BracketGrammar.read_eq_error refusesTextually_brackets spellsMembers_brackets hb)
        · cases h
      · split at h
        · next hc =>
          split at h
          · next he =>
            cases h
            exact hc ▸ .textual (escape_eq_error he)
          · cases h
        · split at h
          · cases h
          · split at h
            · cases h
            · split at h
              · cases h
              · split at h
                · cases h
                  exact .textual (Fault.isTextual_self rfl (List.suffix_cons _ _))
                · cases h

/-! ## Branches and expressions -/

/-- A step is refused at a place of the text that it reads. -/
theorem refused_step (hi : ∀ n < levels, (expression n).Refuses) {done : Progress}
    (h : step (below levels) levels done cur = .error f) : Refused cur.rest f := by
  unfold step at h
  split at h
  · next ha =>
    cases h
    exact refused_atom hi ha
  · next ha => exact (refused_addAtom h).of_suffix (atom_advances ha).1

/-- The first step that is refused is what a branch is refused for. -/
theorem refused_steps (hi : ∀ n < levels, (expression n).Refuses) {done : Progress}
    (h : steps (below levels) levels done cur = .error f) : Refused cur.rest f := by
  induction hn : cur.rest.length using Nat.strongRecOn generalizing cur done with
  | _ n ih =>
    unfold steps at h
    split at h
    · cases h
    · split at h
      · next hs =>
        cases h
        exact (refused_step hi hs).of_suffix (skip_suffix _ _)
      · next hs =>
        -- A step makes the rest shorter.
        have a := (step_advances hs).suffix_of (skip_suffix _ _)
        exact (ih _ (hn ▸ a.2) h rfl).of_suffix a.1

theorem refused_branch (hi : ∀ n < levels, (expression n).Refuses)
    (h : branch (below levels) levels flags cur = .error f) : Refused cur.rest f := by
  unfold branch at h
  split at h
  · next hs =>
    cases h
    exact refused_steps hi hs
  · cases h

theorem refused_branches (hi : ∀ n < levels, (expression n).Refuses)
    (h : branches (below levels) levels flags cur = .error f) : Refused cur.rest f := by
  induction hn : cur.rest.length using Nat.strongRecOn generalizing cur flags with
  | _ n ih =>
    unfold branches at h
    split at h
    · next hb =>
      cases h
      exact refused_branch hi hb
    · next hb =>
      -- The bar makes the rest shorter, even behind an empty branch.
      have hs := (List.suffix_cons _ _).trans (branch_suffix hb)
      have hlt := (branch_suffix hb).length_le
      simp only [List.length_cons] at hlt
      simp only at h
      split at h
      · next hl =>
        cases h
        exact (ih _ (by simp only at *; omega) hl rfl).of_suffix hs
      · cases h
    · cases h

/-- What is refused at any level is refused at a place of the text. -/
theorem refuses_expression (levels : Nat) : (expression levels).Refuses := by
  induction levels using Nat.strongRecOn with
  | _ levels ih =>
    intro flags cur f h
    rw [expression_eq] at h
    change alternation (below levels) levels flags cur = _ at h
    unfold alternation at h
    split at h
    · next hl =>
      cases h
      exact refused_branches ih hl
    · cases h

/-- A pattern is refused at one of its places. -/
theorem exists_refused_of_parse {pattern : List Char} {err : ParseError}
    (h : parse pattern = .error err) : ∃ f, Refused pattern f ∧ err = f.report pattern := by
  unfold parse at h
  split at h
  · next hr =>
    cases h
    exact ⟨_, refuses_expression maxDepth hr, rfl⟩
  · cases h
  · next hr =>
    cases h
    have hrest := (expression maxDepth).read_suffix hr
    exact ⟨_, .textual ⟨⟨hrest, List.suffix_refl _⟩, rfl⟩, rfl⟩

end RegexDialects.Pattern.Pcre
