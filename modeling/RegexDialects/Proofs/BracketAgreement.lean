import RegexDialects.Pattern.Emacs.Bracket
import RegexDialects.Proofs.BracketLookAhead

/-!
# Bracket expressions of both dialects

Inside brackets PCRE has two things that Emacs has not: escapes, and names of classes that are
negated. Where a text has neither (`SharedBody`), the two dialects read the same from it, or refuse
it for the same reason at the same place. The readers differ in their items and in the names of
classes only, so it is settled there and goes up from them.
-/

set_option autoImplicit false

namespace RegexDialects.Pattern

/-- Whether `text` has neither an escape nor a negated name of a class. -/
structure SharedBody (text : List Char) : Prop where
  no_escape : '\\' ∉ text
  no_negated : ¬ ['[', ':', '^'] <:+: text

theorem SharedBody.of_suffix {rest text : List Char} (h : SharedBody text) (hs : rest <:+ text) :
    SharedBody rest where
  no_escape hmem := h.no_escape (hs.mem hmem)
  no_negated hin := h.no_negated (hin.trans hs.isInfix)

/-! ## Items and names -/

/-- An item of Emacs is a character, whatever stands behind it. -/
theorem localIn_emacs (body tail : List Char) : Emacs.brackets.LocalIn body tail := by
  intro whole whole' text rest a _ _ h
  cases text with
  | nil => cases h
  | cons c text =>
    cases h
    rfl

/-- In PCRE an item is a character as well, unless it is an escape. -/
theorem bracketAtom_of_ne {c : Char} (h : c ≠ '\\') (whole text : List Char) :
    Pcre.bracketAtom whole (c :: text) = .ok (.char c, text) := by
  unfold Pcre.bracketAtom
  split
  · next heq => cases heq
  · next heq => exact absurd (List.cons.inj heq).1 h
  · next heq =>
    cases heq
    rfl

/-- Without a backslash there are no escapes, and the items are the same. -/
theorem SharedBody.atom_eq {text : List Char} (h : SharedBody text) (whole : List Char) :
    Emacs.brackets.atom whole text = Pcre.brackets.atom whole text := by
  cases text with
  | nil => rfl
  | cons c text =>
    have hc : c ≠ '\\' := by
      rintro rfl
      exact h.no_escape List.mem_cons_self
    exact (bracketAtom_of_ne hc whole text).symm

theorem SharedBody.localIn_pcre {body : List Char} (h : SharedBody body) (tail : List Char) :
    Pcre.brackets.LocalIn body tail := by
  intro whole whole' text rest a hs _ ha
  cases text with
  | nil => cases ha
  | cons c text =>
    have hc : c ≠ '\\' := by
      rintro rfl
      exact h.no_escape (hs.mem List.mem_cons_self)
    cases (bracketAtom_of_ne hc whole text).symm.trans ha
    exact bracketAtom_of_ne hc whole' (rest ++ tail)

/-- Only a name with a `^` in front is taken for different things. -/
theorem namedClass?_eq {name : List Char} (h : ∀ c ∈ name.head?, c ≠ '^') :
    namedClass? false name = namedClass? true name := by
  unfold namedClass?
  split
  · exact absurd rfl (h _ rfl)
  · rfl

/-- Names are the same up to the sign, which is not there. -/
theorem SharedBody.readClass?_eq {text : List Char} (h : SharedBody text) :
    readClass? false text = readClass? true text := by
  unfold readClass?
  split
  · rfl
  · rfl
  · next body =>
    have hname : namedClass? false (body.takeWhile isClassNameChar) =
        namedClass? true (body.takeWhile isClassNameChar) := by
      apply namedClass?_eq
      rintro c hc rfl
      cases body with
      | nil => cases hc
      | cons d l =>
        rw [List.takeWhile_cons] at hc
        split at hc
        · cases hc
          exact h.no_negated (List.prefix_append ['[', ':', '^'] l).isInfix
        · cases hc
    rw [hname]
  · rfl

/-! ## Members -/

theorem SharedBody.rangeEnd_eq {text : List Char} (h : SharedBody text) (whole start : List Char)
    (lo : Char) :
    Emacs.brackets.rangeEnd whole start lo text = Pcre.brackets.rangeEnd whole start lo text := by
  unfold BracketGrammar.rangeEnd
  rw [h.atom_eq]

theorem SharedBody.item_eq {text : List Char} (h : SharedBody text) (whole : List Char) :
    Emacs.brackets.item whole text = Pcre.brackets.item whole text := by
  unfold BracketGrammar.item
  rw [h.atom_eq]
  split
  · rfl
  · rfl
  · next ha =>
    have hmid := h.of_suffix (Pcre.brackets.atom_advances ha).1
    split
    · rw [(hmid.of_suffix (List.suffix_cons _ _)).rangeEnd_eq]
    · rfl

theorem SharedBody.member?_eq {text : List Char} (h : SharedBody text) (whole : List Char)
    (first : Bool) :
    Emacs.brackets.member? whole first text = Pcre.brackets.member? whole first text := by
  unfold BracketGrammar.member?
  split
  · rfl
  · rw [show Emacs.brackets.negatedNames = false from rfl,
      show Pcre.brackets.negatedNames = true from rfl, h.readClass?_eq, h.item_eq]

/-- Member by member the two readers do the same. -/
theorem SharedBody.members_eq {text : List Char} (h : SharedBody text) (whole : List Char)
    (first : Bool) :
    Emacs.brackets.members whole first text = Pcre.brackets.members whole first text := by
  induction hn : text.length using Nat.strongRecOn generalizing first text with
  | _ n ih =>
    rw [BracketGrammar.members_eq, BracketGrammar.members_eq, h.member?_eq]
    split
    · rfl
    · rfl
    · next hm =>
      have a := Pcre.brackets.member?_advances hm
      rw [ih _ (hn ▸ a.2) (h.of_suffix a.1) false rfl]

/-- Both dialects read the same bracket expression, or refuse it with the same fault. -/
theorem SharedBody.read_eq {text : List Char} (h : SharedBody text) :
    Emacs.brackets.read text = Pcre.brackets.read text := by
  simp only [BracketGrammar.read]
  rw [(h.of_suffix (caret?_suffix text)).members_eq]

end RegexDialects.Pattern
