import RegexDialects.Proofs.BracketLookAhead
import RegexDialects.Proofs.Outcome

/-!
# A text with another one behind it

What is read at the front of a text is read the same way with more text behind it, as far as the
reader does not come to its end. At the end it depends on what stands behind: where that is the end
of a branch, nothing changes either (`Separated`).

The proof runs the reader twice, on the text by itself and on the text with more behind it
(`Shifted`), and shows that the second run repeats the first one (`Repeats`), step by step. The
second run may be a looser repetition of the first: it may start at another depth, and so give up
because of nesting, and it may start with other groups opened before. That is seen by references
only, so a text for which it matters holds none (`HasNoReference`). If it is not loose, the two runs
agree in all but the text behind.
-/

set_option autoImplicit false

namespace RegexDialects.Pattern.Pcre

open Regex

variable {loose : Prop} {after : List Char}

/-! ## Two runs -/

/-- Whether no backslash stands in front of a digit. -/
def HasNoReference (text : List Char) : Prop :=
  ∀ d : Char, d.isDigit = true → ¬ ['\\', d] <:+: text

theorem HasNoReference.of_suffix {rest text : List Char} (h : HasNoReference text)
    (hs : rest <:+ text) : HasNoReference rest :=
  fun d hd hr => h d hd (hr.trans hs.isInfix)

/-- The place of the second run is that of the first one, with the text `after` behind. -/
structure Shifted (loose : Prop) (after : List Char) (cur cur' : Cursor) : Prop where
  rest : cur'.rest = cur.rest ++ after
  plain : Plain cur.rest
  groups : cur'.groups = cur.groups ∨ (loose ∧ HasNoReference cur.rest)

theorem Shifted.of_suffix {groups groups' : Nat} {text rest : List Char}
    (h : Shifted loose after ⟨text, groups⟩ ⟨text ++ after, groups'⟩) (hs : rest <:+ text) :
    Shifted loose after ⟨rest, groups⟩ ⟨rest ++ after, groups'⟩ where
  rest := rfl
  plain := h.plain.of_suffix hs
  groups := h.groups.imp_right (And.imp_right fun hr => hr.of_suffix hs)

/-- One more group is opened in both runs. -/
theorem Shifted.capture {groups groups' : Nat} {text : List Char}
    (h : Shifted loose after ⟨text, groups⟩ ⟨text ++ after, groups'⟩) :
    Shifted loose after ⟨text, groups + 1⟩ ⟨text ++ after, groups' + 1⟩ where
  rest := rfl
  plain := h.plain
  groups := h.groups.imp_left fun heq => congrArg (· + 1) heq

/-- The second run returns what the first one did, at the same place, if it does not give up because
    of nesting. -/
def Repeats {α : Type} (loose : Prop) (after : List Char) (r : Except Fault (α × Cursor)) (a : α)
    (next : Cursor) : Prop :=
  (loose ∧ IsTooDeep r) ∨ ∃ next', r = .ok (a, next') ∧ Shifted loose after next next'

/-- What fails where `r` fails, and makes something of the value that `r` returns. -/
theorem Repeats.imp {α β : Type} {r : Except Fault (α × Cursor)} {a : α} {next : Cursor}
    (h : Repeats loose after r a next) {r' : Except Fault (β × Cursor)} {b : β}
    (herror : ∀ f, r = .error f → r' = .error f)
    (hok : ∀ next', r = .ok (a, next') → r' = .ok (b, next')) : Repeats loose after r' b next := by
  rcases h with ⟨hl, f, hr, hk⟩ | ⟨next', hr, hnext⟩
  · exact Or.inl ⟨hl, f, herror f hr, hk⟩
  · exact Or.inr ⟨next', hok next' hr, hnext⟩

/-- A second reader repeats what the first one reads. -/
def Inside.IsRepeatedBy (loose : Prop) (after : List Char) (inside inside' : Inside) : Prop :=
  ∀ ⦃flags cur cur' e next⦄, Shifted loose after cur cur' → Separated next.rest after →
    inside.read flags cur = .ok (e, next) → Repeats loose after (inside'.read flags cur') e next

/-- The readers for the level below repeat each other, where both have one. -/
def RepeatedBelow (loose : Prop) (after : List Char) (deeper deeper' : Option Inside) : Prop :=
  ∀ i ∈ deeper, (deeper' = none → loose) ∧ ∀ i' ∈ deeper', i.IsRepeatedBy loose after i'

/-! ## Groups and atoms -/

theorem repeats_groupBody {inside inside' : Inside} (hi : inside.IsRepeatedBy loose after inside')
    (whole' : List Char) {whole : List Char} {flags : Flags} {cur cur' next : Cursor} {e : Regex}
    (hc : Shifted loose after cur cur') (h : groupBody inside whole flags cur = .ok (e, next)) :
    Repeats loose after (groupBody inside' whole' flags cur') e next := by
  unfold groupBody at h
  split at h
  · cases h
  · next rest groups hr =>
    cases h
    -- The parenthesis is left when the body ends, so nothing behind it has been seen.
    rcases hi hc (separated_cons _ _ _) hr with ⟨hl, hdeep⟩ | ⟨⟨rest', groups'⟩, heq, hnext⟩
    · exact Or.inl ⟨hl, groupBody_of_tooDeep whole' hdeep⟩
    · obtain rfl : rest' = ')' :: (rest ++ after) := hnext.rest
      exact Or.inr ⟨_, groupBody_of_ok heq, hnext.of_suffix (List.suffix_cons _ _)⟩
  · cases h

/-- A group that is complete has more than its opening parenthesis. -/
theorem ne_nil_of_group {inside : Inside} {flags : Flags} {groups : Nat} {text : List Char}
    {r : Atom × Cursor} (h : group (some inside) flags ⟨text, groups⟩ = .ok r) : text ≠ [] := by
  rintro rfl
  have hopen : ∀ whole, Opening.read whole flags [] = .ok (.capture, []) := fun _ => rfl
  simp only [group, hopen, groupBody] at h
  split at h
  · cases h
  · next hb =>
    split at hb
    · cases hb
    · next hr => cases List.suffix_nil.1 (inside.read_suffix hr)
    · cases hb

theorem repeats_group {deeper deeper' : Option Inside}
    (hi : RepeatedBelow loose after deeper deeper') {flags : Flags} {groups groups' : Nat}
    {text : List Char} {next : Cursor} {a : Atom}
    (hc : Shifted loose after ⟨text, groups⟩ ⟨text ++ after, groups'⟩)
    (h : group deeper flags ⟨text, groups⟩ = .ok (a, next)) :
    Repeats loose after (group deeper' flags ⟨text ++ after, groups'⟩) a next := by
  cases deeper with
  | none => cases h
  | some inside =>
    obtain ⟨hnone, hi⟩ := hi inside rfl
    -- The first text goes on behind the opening, since the group is complete.
    have htext : Separated text after := fun hnil => absurd hnil (ne_nil_of_group h)
    cases deeper' with
    | none => exact Or.inl ⟨hnone rfl, _, rfl, rfl⟩
    | some inside' =>
      have hi := hi inside' rfl
      simp only [group] at h ⊢
      split at h
      · cases h
      · next rest ho =>
        cases h
        rw [Opening.read_append _ htext ho]
        exact Or.inr ⟨_, rfl, hc.of_suffix (Opening.read_suffix ho)⟩
      · next f rest ho =>
        cases h
        rw [Opening.read_append _ htext ho]
        exact Or.inr ⟨_, rfl, hc.of_suffix (Opening.read_suffix ho)⟩
      · next inner rest ho =>
        rw [Opening.read_append _ htext ho]
        split at h
        · cases h
        · next e next hb =>
          cases h
          refine (repeats_groupBody hi ('(' :: (text ++ after))
            (hc.of_suffix (Opening.read_suffix ho)) hb).imp ?_ ?_
          · intro f heq
            simp only [heq]
          · intro next' heq
            simp only [heq]
      · next rest ho =>
        rw [Opening.read_append _ htext ho]
        split at h
        · cases h
        · next e next hb =>
          cases h
          refine (repeats_groupBody hi ('(' :: (text ++ after))
            (hc.of_suffix (Opening.read_suffix ho)).capture hb).imp ?_ ?_
          · intro f heq
            simp only [heq]
          · intro next' heq
            simp only [heq]

/-- What stands behind a backslash is no quotation, and no reference where that matters. -/
theorem Shifted.escape {groups groups' : Nat} {text : List Char}
    (h : Shifted loose after ⟨'\\' :: text, groups⟩ ⟨'\\' :: text ++ after, groups'⟩) :
    (∀ c ∈ text.head?, c ≠ 'Q') ∧ (groups' = groups ∨ ∀ c ∈ text.head?, c.isDigit = false) := by
  have hpair : ∀ c ∈ text.head?, ['\\', c] <:+: '\\' :: text := by
    intro c hc
    cases text with
    | nil => cases hc
    | cons d text =>
      cases hc
      exact ⟨[], text, rfl⟩
  refine ⟨?_, h.groups.imp_right ?_⟩
  · rintro c hc rfl
    exact h.plain.quotation (hpair _ hc)
  · rintro ⟨-, hr⟩ c hc
    exact Bool.eq_false_iff.2 fun hd => hr c hd (hpair c hc)

/-- Only an escape may go on into the text behind. -/
theorem repeats_atom (hends : EndsBounds after) {deeper deeper' : Option Inside}
    (hi : RepeatedBelow loose after deeper deeper') {flags : Flags} {cur cur' next : Cursor}
    {a : Atom} (hc : Shifted loose after cur cur')
    (hs : cur.rest.head? = some '\\' → Separated next.rest after)
    (h : atom deeper flags cur = .ok (a, next)) :
    Repeats loose after (atom deeper' flags cur') a next := by
  obtain ⟨text, groups⟩ := cur
  obtain ⟨text', groups'⟩ := cur'
  obtain rfl : text' = text ++ after := hc.rest
  cases text with
  | nil => cases h
  | cons c text =>
    have hrest := hc.of_suffix (List.suffix_cons c text)
    simp only [List.cons_append]
    unfold atom at h ⊢
    simp only at h ⊢
    split at h
    · next hparen =>
      rw [if_pos hparen]
      exact repeats_group hi hrest h
    · next hparen =>
      rw [if_neg hparen]
      split at h
      · next hbracket =>
        rw [if_pos hbracket]
        split at h
        · cases h
        · next hb =>
          cases h
          rw [brackets_append hends.toEndsNumber hb]
          exact Or.inr ⟨_, rfl, hrest.of_suffix (BracketGrammar.read_advances hb).1⟩
      · next hbracket =>
        rw [if_neg hbracket]
        split at h
        · next hslash =>
          subst hslash
          rw [if_pos rfl]
          obtain ⟨hq, hg⟩ := hc.escape
          split at h
          · cases h
          · next he =>
            cases h
            rw [escape_append hends.toEndsNumber hq hg (hs rfl) he]
            exact Or.inr ⟨_, rfl, hrest.of_suffix (escape_suffix he)⟩
        · next hslash =>
          rw [if_neg hslash]
          split at h
          · next hdot =>
            cases h
            rw [if_pos hdot]
            exact Or.inr ⟨_, rfl, hrest⟩
          · next hdot =>
            rw [if_neg hdot]
            split at h
            · next hstart =>
              cases h
              rw [if_pos hstart]
              exact Or.inr ⟨_, rfl, hrest⟩
            · next hstart =>
              rw [if_neg hstart]
              split at h
              · next hend =>
                cases h
                rw [if_pos hend]
                exact Or.inr ⟨_, rfl, hrest⟩
              · next hend =>
                rw [if_neg hend]
                split at h
                · cases h
                · next ho =>
                  cases h
                  rw [if_neg ho]
                  exact Or.inr ⟨_, rfl, hrest⟩

/-! ## Steps, branches and expressions -/

section Branches

variable {deeper deeper' : Option Inside} {levels levels' : Nat} {cur cur' next : Cursor}

/-- Quantifiers are read the same way, but they may be too many for the second run. -/
theorem repeats_addPiece (hends : EndsBounds after) (hl : levels' < levels → loose) {flags : Flags}
    {pieces : List Regex} {e : Regex} {p : Progress} (hc : Shifted loose after cur cur')
    (hs : Separated next.rest after) (h : addPiece levels flags pieces e cur = .ok (p, next)) :
    Repeats loose after (addPiece levels' flags pieces e cur') p next := by
  obtain ⟨text, groups⟩ := cur
  obtain ⟨text', groups'⟩ := cur'
  obtain rfl : text' = text ++ after := hc.rest
  unfold addPiece at h ⊢
  split at h
  · cases h
  · next hq =>
    cases h
    rcases quantified_append (readsBefore_quantifiers hends flags) hc.plain hs hq
      (levels' - e.repeatDepth) with ⟨hlt, f, heq, hk⟩ | heq
    · rw [heq]
      exact Or.inl ⟨hl (by omega), f, rfl, hk⟩
    · rw [heq]
      exact Or.inr ⟨_, rfl, hc.of_suffix (quantified_suffix hq)⟩

theorem repeats_addAtom (hends : EndsBounds after) (hl : levels' < levels → loose)
    {done p : Progress} {a : Atom} (hc : Shifted loose after cur cur')
    (hs : Separated next.rest after) (h : addAtom levels done a cur = .ok (p, next)) :
    Repeats loose after (addAtom levels' done a cur') p next := by
  unfold addAtom at h ⊢
  split at h
  · cases h
    exact Or.inr ⟨cur', rfl, hc⟩
  · exact repeats_addPiece hends hl hc hs h
  · split at h
    · cases h
      exact Or.inr ⟨cur', rfl, hc⟩
    · exact repeats_addPiece hends hl hc hs h
  · split at h
    · cases h
      exact Or.inr ⟨cur', rfl, hc⟩
    · exact repeats_addPiece hends hl hc hs h

/-- One step of the first run is one step of the second one. -/
theorem repeats_step (hends : EndsBounds after) (hi : RepeatedBelow loose after deeper deeper')
    (hl : levels' < levels → loose) {done p : Progress} (hc : Shifted loose after cur cur')
    (hs : Separated next.rest after) (h : step deeper levels done cur = .ok (p, next)) :
    Repeats loose after (step deeper' levels' done cur') p next := by
  unfold step at h ⊢
  split at h
  · cases h
  · next ha =>
    have hmid := fun (_ : cur.rest.head? = some '\\') => hs.of_suffix (addAtom_suffix h)
    rcases repeats_atom hends hi hc hmid ha with ⟨hl, f, heq, hk⟩ | ⟨mid', heq, hmid⟩
    · rw [heq]
      exact Or.inl ⟨hl, f, rfl, hk⟩
    · rw [heq]
      exact repeats_addAtom hends hl hmid hs h

/-- A branch ends where it ended before. -/
theorem Separated.branchEnds {text : List Char} (hs : Separated text after) :
    branchEnds (text ++ after) = branchEnds text := by
  cases text with
  | nil => exact branchEnds_of_paren (hs rfl)
  | cons c text => rfl

/-- Where blanks and comments are skipped, both runs skip the same. -/
theorem Shifted.skip {flags : Flags} (hc : Shifted loose after cur cur')
    (hs : Separated (cur.skip flags).rest after) :
    Shifted loose after (cur.skip flags) (cur'.skip flags) := by
  obtain ⟨text, groups⟩ := cur
  obtain ⟨text', groups'⟩ := cur'
  obtain rfl : text' = text ++ after := hc.rest
  unfold Cursor.skip
  rw [skip_append hc.plain hs]
  exact hc.of_suffix (skip_suffix flags text)

theorem steps_suffix_skip {done p : Progress} (h : steps deeper levels done cur = .ok (p, next)) :
    next.rest <:+ (cur.skip done.flags).rest := by
  cases hb : branchEnds (cur.skip done.flags).rest with
  | true =>
    rw [steps_eq_ok done hb] at h
    cases h
    exact List.suffix_refl _
  | false =>
    rw [steps_eq_bind done hb] at h
    obtain ⟨r, hstep, h⟩ := bind_eq_ok_iff.1 h
    exact (steps_suffix h).trans (step_advances hstep).1

theorem repeats_steps (hends : EndsBounds after) (hi : RepeatedBelow loose after deeper deeper')
    (hl : levels' < levels → loose) {done p : Progress} (hc : Shifted loose after cur cur')
    (hs : Separated next.rest after) (h : steps deeper levels done cur = .ok (p, next)) :
    Repeats loose after (steps deeper' levels' done cur') p next := by
  induction hn : cur.rest.length using Nat.strongRecOn generalizing cur cur' done with
  | _ n ih =>
    -- Both runs see the end of the branch, or both take a step.
    have hsep := hs.of_suffix (steps_suffix_skip h)
    have hskip := hc.skip hsep
    have hbranch : branchEnds (cur'.skip done.flags).rest =
        branchEnds (cur.skip done.flags).rest := by
      rw [hskip.rest, hsep.branchEnds]
    cases hb : branchEnds (cur.skip done.flags).rest with
    | true =>
      rw [steps_eq_ok done hb] at h
      cases h
      exact Or.inr ⟨_, steps_eq_ok _ (hbranch.trans hb), hskip⟩
    | false =>
      rw [steps_eq_bind done hb] at h
      rw [steps_eq_bind done (hbranch.trans hb)]
      obtain ⟨⟨p', mid⟩, hstep, h⟩ := bind_eq_ok_iff.1 h
      have a := (step_advances hstep).suffix_of (skip_suffix _ _)
      rcases repeats_step hends hi hl hskip (hs.of_suffix (steps_suffix h)) hstep with
        ⟨hloose, f, heq, hk⟩ | ⟨mid', heq, hmid⟩
      · rw [heq]
        exact Or.inl ⟨hloose, f, rfl, hk⟩
      · rw [heq]
        exact ih _ (hn ▸ a.2) hmid h rfl

theorem repeats_branch (hends : EndsBounds after) (hi : RepeatedBelow loose after deeper deeper')
    (hl : levels' < levels → loose) {flags : Flags} {r : Regex × Flags}
    (hc : Shifted loose after cur cur') (hs : Separated next.rest after)
    (h : branch deeper levels flags cur = .ok (r, next)) :
    Repeats loose after (branch deeper' levels' flags cur') r next := by
  unfold branch at h ⊢
  split at h
  · cases h
  · next hsteps =>
    cases h
    refine (repeats_steps hends hi hl hc hs hsteps).imp ?_ ?_
    · intro f heq
      rw [heq]
    · intro next' heq
      rw [heq]

theorem repeats_branches (hends : EndsBounds after) (hi : RepeatedBelow loose after deeper deeper')
    (hl : levels' < levels → loose) {flags : Flags} {l : List Regex}
    (hc : Shifted loose after cur cur') (hs : Separated next.rest after)
    (h : branches deeper levels flags cur = .ok (l, next)) :
    Repeats loose after (branches deeper' levels' flags cur') l next := by
  induction hn : cur.rest.length using Nat.strongRecOn generalizing cur cur' flags l with
  | _ n ih =>
    unfold branches at h
    split at h
    · cases h
    · next e flags' rest groups hb =>
      have s := (branch_suffix hb).length_le
      simp only [List.length_cons] at h s
      split at h
      · cases h
      · next hrest =>
        cases h
        rcases repeats_branch hends hi hl hc (separated_cons _ _ _) hb with
          ⟨hloose, f, heq, hk⟩ | ⟨⟨rest', groups'⟩, heq, hnext⟩
        · exact Or.inl ⟨hloose, f, branches_of_error heq, hk⟩
        · obtain rfl : rest' = '|' :: (rest ++ after) := hnext.rest
          rw [branches_of_bar heq]
          have hlt : rest.length < n := by omega
          refine (ih _ hlt (hnext.of_suffix (List.suffix_cons _ _)) hrest rfl).imp ?_ ?_
          · intro f heq'
            rw [heq']
          · intro next' heq'
            rw [heq']
    · next e flags' next hbar hb =>
      cases h
      rcases repeats_branch hends hi hl hc hs hb with
        ⟨hloose, f, heq, hk⟩ | ⟨⟨rest', groups'⟩, heq, hnext⟩
      · exact Or.inl ⟨hloose, f, branches_of_error heq, hk⟩
      · obtain ⟨rest, groups⟩ := next
        obtain rfl : rest' = rest ++ after := hnext.rest
        refine Or.inr ⟨_, ?_, hnext⟩
        -- The last branch ends at a parenthesis, or at the end of the first text.
        apply branches_of_not_bar heq
        intro l heq
        cases rest with
        | nil =>
          cases heq
          cases hs rfl _ rfl
        | cons c rest =>
          cases heq
          exact hbar _ _ rfl

end Branches

/-- A level repeats another one if the levels below do. -/
theorem repeats_inside (hends : EndsBounds after) {deeper deeper' : Option Inside}
    (hi : RepeatedBelow loose after deeper deeper') {levels levels' : Nat}
    (hl : levels' < levels → loose) :
    (inside deeper levels).IsRepeatedBy loose after (inside deeper' levels') := by
  intro flags cur cur' e next hc hs h
  change alternation deeper levels flags cur = _ at h
  show Repeats loose after (alternation deeper' levels' flags cur') e next
  unfold alternation at h ⊢
  split at h
  · cases h
  · next hbranches =>
    cases h
    refine (repeats_branches hends hi hl hc hs hbranches).imp ?_ ?_
    · intro f heq
      rw [heq]
    · intro next' heq
      rw [heq]

/-- An expression is read the same way with more text behind it, at every level of nesting. -/
theorem repeats_expression (hends : EndsBounds after) {levels levels' : Nat}
    (hl : levels' < levels → loose) :
    (expression levels).IsRepeatedBy loose after (expression levels') := by
  induction levels generalizing levels' with
  | zero =>
    rw [expression_eq, expression_eq]
    refine repeats_inside hends ?_ hl
    intro i hi
    cases hi
  | succ levels ih =>
    rw [expression_eq, expression_eq]
    refine repeats_inside hends ?_ hl
    intro i hi
    cases hi
    cases levels' with
    | zero => exact ⟨fun _ => hl (Nat.succ_pos levels), nofun⟩
    | succ levels' =>
      refine ⟨nofun, ?_⟩
      rintro i' ⟨⟩
      exact ih fun hlt => hl (Nat.succ_lt_succ hlt)

end RegexDialects.Pattern.Pcre
