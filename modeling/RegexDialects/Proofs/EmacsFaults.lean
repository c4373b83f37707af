import RegexDialects.Proofs.Braces
import RegexDialects.Proofs.EmacsAssembly
import RegexDialects.Proofs.Faults

/-!
# Where an Emacs pattern is refused

A refusal is at a place of the text that was read (`Refused`). Besides the causes that are seen in
the text, there are braces that hold no bounds, and references to groups that were not opened: for
these the highest group number at the place of the reference is below the digit. Reading also breaks
off at a plain group for which there is no number left.
-/

set_option autoImplicit false

namespace RegexDialects.Pattern.Emacs

open Regex

/-- A group that is to get the next number begins at `p`. -/
def BeginsPlain (p : Cursor) : Prop :=
  ∃ text rest, p.rest = '\\' :: '(' :: text ∧ GroupKind.read p.rest text = .ok (.implicit, rest)

/-- A refusal of `text`, which was read at the places `visited`. -/
inductive Refused (visited : List Cursor) (text : List Char) (f : Fault) : Prop where
  | textual (h : f.IsTextual text)
  /-- Braces hold no bounds, or a number that does not fit. -/
  | braces (hs : f.IsWithin text) (hkind : f.kind = .badRepetition)
  /-- A reference goes beyond the highest group number. -/
  | reference {p : Cursor} {d : Char} {rest : List Char} (hp : p ∈ visited)
      (hrest : p.rest = '\\' :: d :: rest) (hlt : p.groups.highest < d.toNat - '0'.toNat)
      (hs : f.IsWithin text) (hstart : f.start = p.rest) (hkind : f.kind = .undefinedBackref)
  /-- There is no number left for a plain group. -/
  | overflow {p : Cursor} (hp : p ∈ visited) (hbegins : BeginsPlain p) (hfull : p.groups.IsFull)
      (hs : f.IsWithin text) (hstart : f.start = p.rest) (hkind : f.kind = .overflow)

variable {visited visited' : List Cursor} {text text' rest whole : List Char} {f : Fault}

/-- What is refused in the rest of a text is refused in the text, which may be read at more places.
    -/
theorem Refused.mono (h : Refused visited text f) (hv : visited ⊆ visited')
    (hs : text <:+ text') : Refused visited' text' f := by
  cases h with
  | textual h => exact .textual (h.of_suffix hs)
  | braces hs' hkind => exact .braces (hs'.of_suffix hs) hkind
  | reference hp hrest hlt hs' hstart hkind =>
    exact .reference (hv hp) hrest hlt (hs'.of_suffix hs) hstart hkind
  | overflow hp hbegins hfull hs' hstart hkind =>
    exact .overflow (hv hp) hbegins hfull (hs'.of_suffix hs) hstart hkind

theorem Refused.isWithin (h : Refused visited text f) : f.IsWithin text := by
  cases h with
  | textual h => exact h.toIsWithin
  | braces hs _ => exact hs
  | reference _ _ _ hs _ _ => exact hs
  | overflow _ _ _ hs _ _ => exact hs

theorem Refused.start_suffix (h : Refused visited text f) : f.start <:+ text :=
  h.isWithin.start

/-! ## Escapes and brackets -/

section

variable (hs : text <:+ whole)

include hs

/-- Behind `\_` must stand `<` or `>`. -/
theorem symbolEdge_eq_error (h : symbolEdge whole text = .error f) : f.IsTextual whole := by
  unfold symbolEdge at h
  split at h
  · cases h
  · cases h
  · cases h
    exact Fault.isTextual_self rfl ((List.drop_suffix 1 text).trans hs)

/-- Behind `\s` and `\S` must stand the code of a syntax class. -/
theorem syntaxCode_eq_error {negated : Bool} (h : syntaxCode whole negated text = .error f) :
    f.IsTextual whole := by
  unfold syntaxCode at h
  split at h
  · cases h
    exact Fault.isTextual_self rfl hs
  · split at h
    · cases h
    · cases h
      exact Fault.isTextual_self rfl ((List.suffix_cons _ _).trans hs)

theorem categoryCode_eq_error {negated : Bool} (h : categoryCode whole negated text = .error f) :
    f.IsTextual whole := by
  unfold categoryCode at h
  split at h
  · cases h
    exact Fault.isTextual_self rfl hs
  · split at h
    · cases h
    · cases h
      exact Fault.isTextual_self rfl ((List.suffix_cons _ _).trans hs)

end

/-- An escape is refused at the place where it stands. -/
theorem refused_escape {cur : Cursor} (hcur : cur.rest = '\\' :: text)
    (h : escape cur.groups.highest text = .error f) : Refused [cur] cur.rest f := by
  rw [hcur]
  simp only [escape] at h
  split at h
  · cases h
    exact .textual (Fault.isTextual_self rfl List.nil_suffix)
  · next c rest =>
    have hrest := (List.suffix_cons c rest).trans (List.suffix_cons '\\' _)
    -- Escapes that take one more character may not have it. A reference is the one escape for which
    -- it matters what was read before.
    split at h
    · cases h
    · split at h
      · exact .textual (symbolEdge_eq_error hrest h)
      · split at h
        · exact .textual (syntaxCode_eq_error hrest h)
        · split at h
          · exact .textual (categoryCode_eq_error hrest h)
          · split at h
            · cases h
              exact .textual (Fault.isTextual_self rfl hrest)
            · split at h
              · split at h
                · next hlt =>
                  cases h
                  exact .reference List.mem_cons_self hcur hlt ⟨List.suffix_refl _, hrest⟩
                    hcur.symm rfl
                · cases h
              · cases h

/-- In brackets of this dialect nothing is escaped, so only their end can be missing. -/
theorem refusesTextually_brackets : brackets.RefusesTextually := by
  intro whole text f _ h
  change bracketAtom whole text = _ at h
  unfold bracketAtom at h
  split at h
  · cases h
    exact Fault.isTextual_self rfl List.nil_suffix
  · cases h

/-! ## Groups and quantifiers -/

/-- Behind `\(?` must stand a colon, with a number before it that is not too large, or with none. -/
theorem GroupKind.read_eq_error (hs : text <:+ whole) (h : GroupKind.read whole text = .error f) :
    f.IsTextual whole := by
  simp only [GroupKind.read] at h
  split at h
  · cases h
  · next body _ =>
    -- Digits, of which there may be none, have been read.
    have hrest := (afterDigits_suffix body).trans ((List.suffix_cons '?' body).trans hs)
    split at h
    · next hd =>
      rw [hd] at hrest
      split at h
      · cases h
      · cases h
        exact Fault.isTextual_self rfl hrest
    · cases h
      exact Fault.isTextual_self rfl hrest
  · cases h

/-- A backslash and a brace always begin bounds here, so anything else in the braces is refused. -/
theorem readQuantifier?_eq_error (h : readQuantifier? text = .error f) :
    f.IsWithin text ∧ f.kind = .badRepetition := by
  unfold readQuantifier? at h
  split at h
  · split at h
    · next hb =>
      cases h
      -- A number does not fit.
      obtain ⟨hkind, hstart, -⟩ := Bounds.read?_eq_error hb
      have hcursor := (Bounds.read?_cursor_suffix hb).trans
        ((List.suffix_cons '{' _).trans (List.suffix_cons '\\' _))
      exact ⟨⟨hstart ▸ List.suffix_refl _, hstart ▸ hcursor⟩, hkind⟩
    · cases h
      exact ⟨⟨List.suffix_refl _, List.suffix_refl _⟩, rfl⟩
    · cases h
  · split at h <;> cases h
  · cases h

theorem refused_quantified (visited : List Cursor) {budget : Nat} {e : Regex}
    (h : quantified quantifiers budget e text = .error f) : Refused visited text f := by
  rcases quantified_eq_error h with ⟨text', hs, hr⟩ | hf
  · obtain ⟨hwithin, hkind⟩ := readQuantifier?_eq_error hr
    exact .braces (hwithin.of_suffix hs) hkind
  · exact .textual hf

end RegexDialects.Pattern.Emacs
