import RegexDialects.Proofs.Fragment
import RegexDialects.Proofs.Nesting

/-!
# What is written is read back

The text of a tree in the notation of PCRE needs as many levels as the tree nests, and is read as
`readBack` of the tree (`written_of_render`). The proof is by induction on the tree. What is shown
of each text depends on how it binds (`Written`): any text can be read as an expression, one that
needs no group inside a concatenation also as pieces of a branch, and one that takes a quantifier
also as an atom. Where the writer puts a group around a text, only the first of these is used.
-/

set_option autoImplicit false

namespace RegexDialects.Form.Pcre

open Regex Pattern Pattern.Pcre

/-! ## The readings of a written tree -/

/-- What the text of a tree is read as. -/
structure Written (e : Regex) (r : Rendered) : Prop where
  atom : r.level.rank ≤ Level.piece.rank → isRepetition e = false →
    ReadsAtom (isBackref e) (e.nesting 1) r.text e.readBack
  pieces : r.level.rank ≤ Level.branch.rank → ∃ isRef l,
    (e.isSequence = false → isRef = isBackref e) ∧ seq l = e.readBack ∧
      ReadsPieces isRef (e.nesting 1) r.text l
  starts : r.level.rank ≤ Level.branch.rank → e ≠ .empty → Starts r.text
  whole : ReadsExpression (e.nesting 1) r.text e.readBack

/-- Pieces are an expression. -/
theorem whole_of_pieces {isRef : Bool} {need : Nat} {text : List Char} {l : List Regex} {e : Regex}
    (h : ReadsPieces isRef need text l) (heq : seq l = e) (hn : e.IsNormal)
    (hhead : ∀ c ∈ text.head?, quantifies c = false) : ReadsExpression need text e := by
  have := h.last.expression hhead
  rwa [heq, alt_singleton hn] at this

/-- A text that is read as an atom can stand anywhere. -/
theorem written_of_atom {e : Regex} {r : Rendered} (hn : e.readBack.IsNormal)
    (h : ReadsAtom (isBackref e) (e.nesting 1) r.text e.readBack) : Written e r where
  atom := fun _ _ => h
  pieces := fun _ => ⟨_, _, fun _ => rfl, seq_singleton hn, h.pieces⟩
  starts := fun _ _ => h.starts
  whole := whole_of_pieces h.pieces (seq_singleton hn) hn h.starts.quantifies

/-- A text that takes no quantifier as it is. -/
theorem written_of_pieces {e : Regex} {r : Rendered} (hn : e.readBack.IsNormal)
    (hlevel : isRepetition e = false → Level.piece.rank < r.level.rank) {isRef : Bool}
    {l : List Regex} (href : e.isSequence = false → isRef = isBackref e)
    (heq : seq l = e.readBack) (h : ReadsPieces isRef (e.nesting 1) r.text l)
    (hs : Starts r.text) :
    Written e r where
  atom := by
    intro hle hrep
    exact absurd hle (Nat.not_le.2 (hlevel hrep))
  pieces := fun _ => ⟨isRef, l, href, heq, h⟩
  starts := fun _ _ => hs
  whole := whole_of_pieces h heq hn hs.quantifies

/-- A text with groups where it binds too loosely can stand in a concatenation. -/
theorem Written.atMost_branch {e : Regex} {r : Rendered} (h : Written e r)
    (hr : render e = .ok r) (hn : e.readBack.IsNormal) :
    ∃ isRef l, (e.isSequence = false → isRef = isBackref e) ∧ seq l = e.readBack ∧
      ReadsPieces isRef (e.nesting 1 + e.wraps .branch) (r.atMost .branch) l := by
  rw [wraps_of_render hr (by decide)]
  unfold Rendered.atMost
  split
  · exact ⟨isBackref e, _, fun _ => rfl, seq_singleton hn, h.whole.shy.pieces.strengthen⟩
  · next hle => exact h.pieces (Nat.le_of_not_lt hle)

/-- In a concatenation every text but the empty one has something to start with. -/
theorem Written.starts_atMost_branch {e : Regex} {r : Rendered} (h : Written e r)
    (he : e ≠ .empty) : Starts (r.atMost .branch) := by
  unfold Rendered.atMost
  split
  · exact h.whole.shy.starts
  · next hle => exact h.starts (Nat.le_of_not_lt hle) he

theorem Written.head_atMost_branch {e : Regex} {r : Rendered} (h : Written e r) :
    ∀ c ∈ (r.atMost .branch).head?, quantifies c = false := by
  unfold Rendered.atMost
  split
  · exact h.whole.shy.starts.quantifies
  · exact h.whole.head

/-- A text with groups where it binds too loosely takes a quantifier. -/
theorem Written.atMost_piece {e : Regex} {r : Rendered} (h : Written e r)
    (hr : render e = .ok r) (hrep : isRepetition e = false) :
    ReadsAtom (isBackref e) (e.nesting 1 + e.wraps .piece) (r.atMost .piece) e.readBack := by
  rw [wraps_of_render hr (Nat.le_refl _)]
  unfold Rendered.atMost
  split
  · exact h.whole.shy.strengthen
  · next hle => exact h.atom (Nat.le_of_not_lt hle) hrep

/-! ## Literals -/

/-- Characters are read one by one, as pieces that merge afterwards. -/
theorem readsPieces_escaped {t : List Char} (hn : t ≠ []) :
    ReadsPieces false 0 (t.flatMap escaped) (t.map fun c => .literal [c]) ∧
      Starts (t.flatMap escaped) := by
  induction t with
  | nil => exact absurd rfl hn
  | cons c t ih =>
    rw [List.flatMap_cons, List.map_cons]
    refine ⟨?_, (starts_escaped c).append _⟩
    cases t with
    | nil =>
      rw [List.flatMap_nil, List.append_nil]
      exact (readsAtom_escaped c).pieces
    | cons d t =>
      obtain ⟨hread, hstarts⟩ := ih (List.cons_ne_nil _ _)
      apply (readsAtom_escaped c).pieces.append hread
      intro rest _
      exact (hstarts.append rest).follows

theorem written_literal {t : List Char} (hn : t ≠ []) :
    Written (.literal t)
      ⟨t.flatMap escaped, if t.length = 1 then .piece else .branch⟩ := by
  by_cases h1 : t.length = 1
  · obtain ⟨c, rfl⟩ := List.length_eq_one_iff.1 h1
    refine written_of_atom (List.cons_ne_nil _ _) ?_
    simp only [List.flatMap_cons, List.flatMap_nil, List.append_nil]
    exact readsAtom_escaped c
  · obtain ⟨hread, hstarts⟩ := readsPieces_escaped hn
    refine written_of_pieces hn ?_ (fun _ => rfl) ?_ hread hstarts
    · intro _
      rw [if_neg h1]
      exact Nat.lt_succ_self 1
    · rw [seq_singletons, Regex.text, if_neg (by simpa using hn)]
      rfl

/-! ## Leaves -/

theorem readsAtom_primitive {p : Primitive} {text : String} (h : p.pcre? = some text) :
    ReadsAtom false (nesting 1 (.primitive p)) text.toList (.primitive p) := by
  cases p <;> cases h
  case textStart => exact readsAtom_escape rfl fun _ _ => rfl
  case textEnd => exact readsAtom_escape rfl fun _ _ => rfl
  case lineStart => exact readsAtom_of_ok (starts_cons rfl []) rfl fun _ _ _ => rfl
  case lineEnd => exact readsAtom_of_ok (starts_cons rfl []) rfl fun _ _ _ => rfl
  case anything => exact readsAtom_anything
  case notNewline => exact readsAtom_of_ok (starts_cons rfl []) rfl fun _ _ _ => rfl
  case wordBoundary => exact readsAtom_escape rfl fun _ _ => rfl
  case notWordBoundary => exact readsAtom_escape rfl fun _ _ => rfl
  case wordChar => exact readsAtom_escape rfl fun _ _ => rfl
  case notWordChar => exact readsAtom_escape rfl fun _ _ => rfl

theorem spellsAll_everyChar :
    SpellsAll everyChar [.item (.range '\x00' (Char.ofNat 0x10ffff))] := by
  have htext : everyChar = hexEscape '\x00' ++ '-' :: hexEscape (Char.ofNat 0x10ffff) := by
    decide
  rw [htext]
  exact (spells_range (by decide) (spellsChar_hexEscape _) (spellsChar_hexEscape _)).all

/-- The classes that have an escape of their own. -/
theorem shorthand?_eq_some {negated : Bool} {k : PosixClass} {text : List Char}
    (h : shorthand? negated k = some text) :
    (k = .digit ∧ text = ['\\', if negated then 'D' else 'd']) ∨
      (k = .space ∧ text = ['\\', if negated then 'S' else 's']) ∨
        (k = .word ∧ text = ['\\', if negated then 'W' else 'w']) := by
  cases k <;> cases h <;> simp

/-- There are four ways to write a set, and all of them are atoms. -/
theorem written_set {s : CharSet} (hs : orderedDemands.set s) {r : Rendered}
    (h : renderSet s = .ok r) : Written (.set s) r := by
  apply written_of_atom (fit_readBack (fit_set.2 hs)).isNormal
  show ReadsAtom false 0 r.text (readBackSet s)
  unfold renderSet at h
  unfold readBackSet
  split at h
  · -- The set of no character is written as the exclusion of all.
    next hempty =>
    cases h
    rw [if_pos (CharSet.isEmpty_eq_true_iff.1 hempty)]
    exact readsAtom_negatedBracket spellsAll_everyChar (List.cons_ne_nil _ _)
  · next hempty =>
    have hne : s ≠ .empty := by
      intro h
      exact hempty (CharSet.isEmpty_eq_true_iff.2 h)
    rw [if_neg hne]
    cases hc : s.singleChar? with
    | some c =>
      rw [hc] at h
      cases h
      exact readsAtom_escaped c
    | none =>
      rw [hc] at h
      show ReadsAtom false 0 r.text (if s = .of (.posix .word) then .primitive .wordChar else .set s)
      cases ht : s.singleClass?.bind (shorthand? false) with
      | some text =>
        rw [ht] at h
        cases h
        obtain ⟨k, hk, ht⟩ := Option.bind_eq_some_iff.1 ht
        rw [CharSet.singleClass?_eq_some_iff] at hk
        subst hk
        rcases shorthand?_eq_some ht with ⟨rfl, rfl⟩ | ⟨rfl, rfl⟩ | ⟨rfl, rfl⟩ <;>
          exact readsAtom_escape rfl fun _ _ => rfl
      | none =>
        rw [ht] at h
        obtain ⟨text, hitems, rfl⟩ := map_eq_ok_iff.1 h
        -- The class of words has an escape, so it is not written in brackets.
        have hword : s ≠ .of (.posix .word) := by
          intro hs
          rw [hs] at ht
          cases ht
        rw [if_neg hword, ← union_items hs.1 hne]
        apply readsAtom_bracket (spellsAll_setItems hs.2 hitems)
        intro hnil
        exact CharSet.items_ne_nil hne (List.map_eq_nil_iff.1 hnil)

/-- A complement is written as the set is, with the sign the other way. -/
theorem written_complement {e : Regex} (he : (complement e).Fit orderedDemands) {r : Rendered}
    (h : renderComplement e = .ok r) : Written (.complement e) r := by
  apply written_of_atom (fit_readBack he).isNormal
  show ReadsAtom false 0 r.text (readBackComplement e)
  unfold renderComplement at h
  split at h
  · next s =>
    have hs := fit_set.1 (fit_complement.1 he).2
    unfold readBackComplement
    split at h
    · next hempty =>
      cases h
      simp only [if_pos (CharSet.isEmpty_eq_true_iff.1 hempty)]
      exact readsAtom_bracket spellsAll_everyChar (List.cons_ne_nil _ _)
    · next hempty =>
      have hne : s ≠ .empty := by
        intro h
        exact hempty (CharSet.isEmpty_eq_true_iff.2 h)
      simp only [if_neg hne]
      split at h
      · next text ht =>
        cases h
        obtain ⟨k, hk, ht⟩ := Option.bind_eq_some_iff.1 ht
        rw [CharSet.singleClass?_eq_some_iff] at hk
        subst hk
        rcases shorthand?_eq_some ht with ⟨rfl, rfl⟩ | ⟨rfl, rfl⟩ | ⟨rfl, rfl⟩ <;>
          exact readsAtom_escape rfl fun _ _ => rfl
      · next hk =>
        obtain ⟨text, hitems, rfl⟩ := map_eq_ok_iff.1 h
        have hword : s ≠ .of (.posix .word) := by
          intro hs
          rw [hs] at hk
          cases hk
        rw [if_neg hword, ← conjunction_items hs.1]
        apply readsAtom_negatedBracket (spellsAll_setItems hs.2 hitems)
        intro hnil
        exact CharSet.items_ne_nil hne (List.map_eq_nil_iff.1 hnil)
  · next k =>
    cases k <;> cases h <;> exact readsAtom_escape rfl fun _ _ => rfl
  · cases h
  · cases h

/-! ## Sequences -/

/-- What each of a list of trees is written as. -/
inductive WrittenAll : List Regex → List Rendered → Prop
  | nil : WrittenAll [] []
  | cons {e : Regex} {r : Rendered} {l : List Regex} {rs : List Rendered} :
      render e = .ok r → Written e r → e.readBack.IsNormal → WrittenAll l rs →
        WrittenAll (e :: l) (r :: rs)

theorem writtenAll_of_renderAll {l : List Regex} {rs : List Rendered}
    (hl : ∀ e ∈ l, ∀ r, render e = .ok r → Written e r) (hn : ∀ e ∈ l, e.readBack.IsNormal)
    (h : renderAll l = .ok rs) : WrittenAll l rs := by
  induction l generalizing rs with
  | nil =>
    cases h
    exact .nil
  | cons e l ih =>
    obtain ⟨r, rs', he, hrs, rfl⟩ := renderAll_cons h
    refine .cons he (hl e List.mem_cons_self r he) (hn e List.mem_cons_self) (ih ?_ ?_ hrs)
    · intro x hx
      exact hl x (List.mem_cons_of_mem _ hx)
    · intro x hx
      exact hn x (List.mem_cons_of_mem _ hx)

/-- Pieces and the tree they make can stand for each other in a concatenation. -/
theorem seq_append_of_eq {l k k' : List Regex} {e : Regex} (h : seq l = e)
    (h' : seq k = seq k') : seq (l ++ k) = seq (e :: k') := by
  have h1 := seq_append_seq [] l k
  have h2 := seq_append_seq [e] k []
  have h3 := seq_append_seq [e] k' []
  rw [h] at h1
  rw [h'] at h2
  simp only [List.nil_append, List.append_nil, List.singleton_append] at h1 h2 h3
  rw [← h1, ← h2, h3]

theorem startsWithDigit_append {text : List Char} (h : Starts text) (rest : List Char) :
    startsWithDigit (text ++ rest) = startsWithDigit text := by
  obtain ⟨c, l, rfl, -⟩ := h
  rfl

/-- Only the first character of what follows matters. -/
theorem follows_append {isRef : Bool} {text : List Char} (h : Starts text)
    (hd : isRef = true → startsWithDigit text = false) (rest : List Char) :
    Follows isRef (text ++ rest) := by
  obtain ⟨c, l, rfl, hq, -⟩ := h
  intro d hd'
  cases hd'
  exact ⟨hq, hd⟩

/-- The texts of parts, as they are joined. -/
def partTexts (l : List Regex) (rs : List Rendered) : List (Bool × List Char) :=
  (l.map isBackref).zip (rs.map (·.atMost .branch))

theorem joinParts_partTexts (e e' : Regex) (l : List Regex) (r r' : Rendered)
    (rs : List Rendered) : joinParts (partTexts (e :: e' :: l) (r :: r' :: rs)) =
      (if isBackref e && startsWithDigit (r'.atMost .branch) then shyGroup (r.atMost .branch)
        else r.atMost .branch) ++ joinParts (partTexts (e' :: l) (r' :: rs)) :=
  rfl

/-- The texts of parts, joined, are read as the parts. -/
theorem readsPieces_joinParts {l : List Regex} {rs : List Rendered} (h : WrittenAll l rs)
    (hp : ∀ e ∈ l, e.isPart = true) (hn : l ≠ []) :
    ∃ isRef k, seq k = seq (l.map readBack) ∧
      ReadsPieces isRef (nestingAll 1 1 l) (joinParts (partTexts l rs)) k ∧
      Starts (joinParts (partTexts l rs)) ∧
      ∀ r ∈ rs.head?, startsWithDigit (joinParts (partTexts l rs)) = true →
        startsWithDigit (r.atMost .branch) = true := by
  induction h with
  | nil => exact absurd rfl hn
  | @cons e r l rs hr he hnormal hall ih =>
    obtain ⟨hseq, hempty⟩ := isPart_eq_true_iff.1 (hp e List.mem_cons_self)
    obtain ⟨isRef, k, href, hk, hread⟩ := he.atMost_branch hr hnormal
    have hstarts := he.starts_atMost_branch hempty
    have href := href hseq
    subst href
    cases hall with
    | nil =>
      refine ⟨isBackref e, k, ?_, ?_, hstarts, ?_⟩
      · rw [hk, List.map_cons, List.map_nil, seq_singleton hnormal]
      · rw [nestingAll_singleton]
        exact hread
      · rintro _ ⟨⟩ h
        exact h
    | @cons e' r' l rs hr' he' hnormal' hall =>
      obtain ⟨isRef', k', hk', hread', hstarts', hdigit'⟩ :=
        ih (fun x hx => hp x (List.mem_cons_of_mem _ hx)) (List.cons_ne_nil _ _)
      have hdigit' := hdigit' r' rfl
      rw [joinParts_partTexts, List.map_cons, nestingAll_cons_cons hr']
      -- Of the texts behind the first one it is enough to know what they are read as.
      generalize joinParts (partTexts (e' :: l) (r' :: rs)) = text' at hread' hstarts' hdigit' ⊢
      generalize nestingAll 1 1 (e' :: l) = need' at hread' ⊢
      have hwhole := whole_of_pieces hread hk hnormal hstarts.quantifies
      split
      · -- A back reference in front of a digit.
        refine ⟨isRef', e.readBack :: k', ?_, ?_, hwhole.shy.starts.append _, ?_⟩
        · exact seq_append_of_eq (seq_singleton hnormal) hk'
        · apply hwhole.shy.pieces.append hread'
          intro rest _
          exact (hstarts'.append rest).follows
        · rintro _ ⟨⟩ h
          rw [startsWithDigit_append hwhole.shy.starts] at h
          exact absurd h Bool.false_ne_true
      · next hguard =>
        refine ⟨isRef', k ++ k', seq_append_of_eq hk hk', ?_, hstarts.append _, ?_⟩
        · apply hread.append hread'
          intro rest _
          refine follows_append hstarts' ?_ rest
          -- Without a group around it, a back reference has no digit behind it.
          intro href
          rw [href, Bool.true_and] at hguard
          exact Bool.eq_false_iff.2 fun h => hguard (hdigit' h)
        · rintro _ ⟨⟩ h
          rwa [startsWithDigit_append hstarts] at h

/-! ## Choices -/

theorem intercalate_bar (t u : List Char) (l : List (List Char)) :
    ['|'].intercalate (t :: u :: l) = t ++ '|' :: ['|'].intercalate (u :: l) := by
  simp [List.intercalate]

theorem intercalate_branch (r : Rendered) :
    ['|'].intercalate ([r].map (·.atMost .branch)) = r.atMost .branch := by
  simp [List.intercalate]

/-- Branches with bars between them are read as the branches. -/
theorem readsBranches_intercalate {l : List Regex} {rs : List Rendered} (h : WrittenAll l rs)
    (hn : l ≠ []) :
    ReadsBranches (nestingAll 1 0 l) (['|'].intercalate (rs.map (·.atMost .branch)))
        (l.map readBack) ∧
      ∀ c ∈ (['|'].intercalate (rs.map (·.atMost .branch))).head?, quantifies c = false := by
  induction h with
  | nil => exact absurd rfl hn
  | @cons e r l rs hr he hnormal hall ih =>
    obtain ⟨isRef, k, -, hk, hread⟩ := he.atMost_branch hr hnormal
    have hhead := he.head_atMost_branch
    cases hall with
    | nil =>
      rw [intercalate_branch, List.map_cons, List.map_nil, ← hk, nestingAll_singleton]
      exact ⟨hread.last, hhead⟩
    | @cons e' r' l rs hr' he' hnormal' hall =>
      obtain ⟨hread', -⟩ := ih (List.cons_ne_nil _ _)
      have htext : ['|'].intercalate ((r :: r' :: rs).map (·.atMost .branch)) =
          r.atMost .branch ++ '|' :: ['|'].intercalate ((r' :: rs).map (·.atMost .branch)) :=
        intercalate_bar _ _ _
      have hmap : (e :: e' :: l).map readBack = seq k :: (e' :: l).map readBack := by
        rw [hk]
        rfl
      rw [htext, hmap, nestingAll, ite_self]
      -- An empty branch starts with the bar behind it, which is no quantifier either.
      refine ⟨hread.bar hread', ?_⟩
      intro c hc
      cases hr : r.atMost .branch with
      | nil =>
        rw [hr] at hc
        cases hc
        rfl
      | cons d t =>
        rw [hr] at hc hhead
        exact hhead c hc

/-! ## Trees -/

theorem written_bracket {l : List Regex} (hl : ∀ e ∈ l, e.Fit orderedDemands) (hn : l ≠ [])
    {text : List Char} (h : bracketItems false l = some (.ok text)) :
    ReadsAtom false 0 (bracket text).text (bracketUnion l) :=
  readsAtom_bracket (spellsAll_bracketItems hl h)
    (flatMap_bracketMembers_ne_nil (Option.isSome_of_eq_some h) hn)

theorem written_negatedBracket {l : List Regex} (hl : ∀ e ∈ l, e.Fit orderedDemands)
    (hn : l ≠ []) {text : List Char} (h : bracketItems true l = some (.ok text)) :
    ReadsAtom false 0 (negatedBracket text).text (bracketExclusion l) :=
  readsAtom_negatedBracket (spellsAll_bracketItems hl h)
    (flatMap_bracketMembers_ne_nil (Option.isSome_of_eq_some h) hn)

/-- A choice is written in brackets if all branches have a place there, else with bars. -/
theorem written_choice {l : List Regex} (he : (choice l).Fit orderedDemands)
    (ih : ∀ e ∈ l, ∀ r, render e = .ok r → Written e r) {r : Rendered}
    (h : render (.choice l) = .ok r) : Written (.choice l) r := by
  have hnormal := (fit_readBack he).isNormal
  obtain ⟨hchoice, hl⟩ := fit_choice.1 he
  have hn : l ≠ [] := ne_nil_of_two_le_length hchoice.1
  rw [readBack] at hnormal
  rw [render] at h
  split at h
  · -- All branches have a place in one bracket expression.
    next items hitems =>
    obtain ⟨text, rfl, rfl⟩ := map_eq_ok_iff.1 h
    have hb : isBracketed l = true := Option.isSome_of_eq_some hitems
    rw [if_pos hb] at hnormal
    refine written_of_atom ?_ ?_ <;> rw [readBack, if_pos hb]
    · exact hnormal
    · rw [nesting_choice_of_bracketItems hitems]
      exact written_bracket hl hn hitems
  · next hitems =>
    have hb : ¬ isBracketed l = true := Option.not_isSome_iff_eq_none.2 hitems
    obtain ⟨rs, hr, h⟩ := bind_eq_ok_iff.1 h
    cases h
    rw [if_neg hb, readBackAll_eq_map] at hnormal
    obtain ⟨hread, hhead⟩ := readsBranches_intercalate
      (writtenAll_of_renderAll ih (fun e he => (fit_readBack (hl e he)).isNormal) hr) hn
    have hwhole := hread.expression hhead
    rw [← readBackAll_eq_map] at hwhole
    have hpiece : ¬ Level.top.rank ≤ Level.piece.rank := by decide
    have hbranch : ¬ Level.top.rank ≤ Level.branch.rank := by decide
    -- Bars bind loosest of all, so such a text is never read without a group around it.
    refine ⟨fun hle => absurd hle hpiece, fun hle => absurd hle hbranch,
      fun hle => absurd hle hbranch, ?_⟩
    rw [readBack, if_neg hb]
    exact hwhole

/-- Parts one behind the other, with groups around those that would run into the next one. -/
theorem written_sequence {l : List Regex} (he : (sequence l).Fit orderedDemands)
    (ih : ∀ e ∈ l, ∀ r, render e = .ok r → Written e r) {r : Rendered}
    (h : render (.sequence l) = .ok r) : Written (.sequence l) r := by
  have hnormal := (fit_readBack he).isNormal
  obtain ⟨hsequence, hl⟩ := fit_sequence.1 he
  have hn : l ≠ [] := ne_nil_of_two_le_length hsequence.1
  rw [render] at h
  obtain ⟨rs, hr, h⟩ := bind_eq_ok_iff.1 h
  cases h
  obtain ⟨isRef, k, hk, hread, hstarts, -⟩ := readsPieces_joinParts
    (writtenAll_of_renderAll ih (fun e he => (fit_readBack (hl e he)).isNormal) hr)
    (fun e he => hsequence.isPart_of_mem he) hn
  refine written_of_pieces hnormal (fun _ => Nat.lt_succ_self 1)
    (fun h => Bool.noConfusion h) ?_ hread hstarts
  rw [hk, readBack, readBackAll_eq_map]

theorem written_repetition {least : Nat} {most : Option Nat} {greedy : Bool} {e : Regex}
    (he : (repetition least most greedy e).Fit orderedDemands)
    (ih : ∀ r, render e = .ok r → Written e r) {r : Rendered}
    (h : render (.repetition least most greedy e) = .ok r) :
    Written (.repetition least most greedy e) r := by
  have hnormal := (fit_readBack he).isNormal
  obtain ⟨⟨hm, hb⟩, -⟩ := fit_repetition.1 he
  rw [render] at h
  obtain ⟨inner, hr, h⟩ := bind_eq_ok_iff.1 h
  cases h
  have hinner := ih inner hr
  -- A repetition of a repetition has a group of its own around it.
  have hatom : ∃ isRef, ReadsAtom isRef
      (e.nesting 1 + if isRepetition e then 1 else e.wraps .piece)
      (if isRepetition e then shyGroup inner.text else inner.atMost .piece) e.readBack := by
    cases hrep : isRepetition e with
    | true => exact ⟨false, hinner.whole.shy⟩
    | false => exact ⟨_, hinner.atMost_piece hr hrep⟩
  obtain ⟨isRef, hatom⟩ := hatom
  have hread := hatom.quantified greedy hb hm
  rw [repeatDepth_readBack (fit_repetition.1 he).2 ⟨inner, hr⟩] at hread
  refine written_of_pieces hnormal (fun h => Bool.noConfusion h) (fun _ => rfl) ?_ hread ?_
  · exact seq_singleton hnormal
  · exact (hatom.starts.append _).append _

/-- **What is written is read back**: with any text behind it, the text of a tree is read as what
    the tree becomes where as many levels are left as the tree nests, and nests too deep elsewhere.
    -/
theorem written_of_render {e : Regex} (he : e.Fit orderedDemands) {r : Rendered}
    (h : render e = .ok r) : Written e r := by
  induction e using inductionOn generalizing r with
  | empty =>
    cases h
    have hpiece : ¬ Level.branch.rank ≤ Level.piece.rank := by decide
    refine ⟨fun hle => absurd hle hpiece, ?_, fun _ h => absurd rfl h, ?_⟩
    · intro _
      exact ⟨false, [], fun _ => rfl, rfl, readsPieces_nil _⟩
    · exact whole_of_pieces (readsPieces_nil false) rfl trivial nofun
  | literal t =>
    cases h
    exact written_literal (fit_literal.1 he)
  | primitive p =>
    rw [render] at h
    split at h
    · next text hp =>
      cases h
      exact written_of_atom trivial (readsAtom_primitive hp)
    · cases h
  | sequence l ih =>
    have hl := (fit_sequence.1 he).2
    exact written_sequence he (fun e hmem r hr => ih e hmem (hl e hmem) hr) h
  | choice l ih =>
    have hl := (fit_choice.1 he).2
    exact written_choice he (fun e hmem r hr => ih e hmem (hl e hmem) hr) h
  | repetition n m g e ih =>
    exact written_repetition he (fun r hr => ih (fit_repetition.1 he).2 hr) h
  | group e ih =>
    rw [render] at h
    obtain ⟨inner, hr, h⟩ := bind_eq_ok_iff.1 h
    cases h
    exact written_of_atom trivial (ih (fit_group.1 he) hr).whole.group
  | backref n =>
    rw [render] at h
    split at h
    · cases h
    · next h9 =>
      cases h
      have h1 := fit_backref.1 he
      exact written_of_atom h1 (readsAtom_backref h1 (Nat.le_of_not_lt h9))
  | syntaxClass k =>
    cases k <;> cases h <;> exact written_of_atom trivial (readsAtom_escape rfl fun _ _ => rfl)
  | category k => cases h
  | set s => exact written_set (fit_set.1 he) h
  | complement e _ => exact written_complement he h
  | intersection l _ =>
    have hl := (fit_intersection.1 he).2
    have hn : l ≠ [] := ne_nil_of_two_le_length (fit_intersection.1 he).1.1.1
    rw [render] at h
    split at h
    · next items hitems =>
      obtain ⟨text, rfl, rfl⟩ := map_eq_ok_iff.1 h
      exact written_of_atom (fit_readBack he).isNormal (written_negatedBracket hl hn hitems)
    · cases h

end RegexDialects.Form.Pcre

namespace RegexDialects.Pattern.Pcre

/-! ## Whole patterns -/

section Patterns

variable {need : Nat} {text : List Char} {e : Regex}

theorem ReadsExpression.settles (h : ReadsExpression need text e) :
    Settles need maxDepth ((expression maxDepth).read noFlags ⟨text, 0⟩)
      (.ok (e, ⟨[], e.captures.length⟩)) := by
  have hread := h.read maxDepth 0 [] nofun
  rwa [List.append_nil, Nat.zero_add] at hread

/-- A pattern that is read as an expression has its tree, or nests too deep; which of them it is
    depends on how many levels it needs. -/
theorem ReadsExpression.parse (h : ReadsExpression need text e) :
    (maxDepth < need ∧ ∃ f, Pcre.parse text = .error f ∧ f.kind = .tooDeep) ∨
      (need ≤ maxDepth ∧ Pcre.parse text = .ok e) := by
  unfold Pcre.parse
  rcases h.settles with ⟨hlt, f, heq, hk⟩ | ⟨hle, heq⟩
  · rw [show (expression maxDepth).read ⟨false, false⟩ ⟨text, 0⟩ = _ from heq]
    exact Or.inl ⟨hlt, _, rfl, hk⟩
  · rw [show (expression maxDepth).read ⟨false, false⟩ ⟨text, 0⟩ = _ from heq]
    exact Or.inr ⟨hle, rfl⟩

end Patterns

end RegexDialects.Pattern.Pcre

namespace RegexDialects.Regex

open Pattern Pattern.Pcre

/-- The text of a tree in the notation of PCRE. -/
theorem readsExpression_of_render {e : Regex} (he : e.Fit orderedDemands) {text : String}
    (h : e.render .pcre = .ok text) :
    ReadsExpression (e.nesting 1) text.toList e.readBack := by
  have htext : Form.text .pcre e = .ok text.toList := by
    unfold render at h
    split at h
    · next l hl =>
      cases h
      rw [hl, String.toList_ofList]
    · cases h
  obtain ⟨r, hr, hrtext⟩ := map_eq_ok_iff.1 htext
  exact hrtext ▸ (Form.Pcre.written_of_render he hr).whole

/-- The text of a tree in the notation of PCRE is read to its end, and as many groups are opened as
    the tree that is read back has. -/
theorem read_of_render {e : Regex} (he : e.Fit orderedDemands) {text : String}
    (h : e.render .pcre = .ok text) :
    IsTooDeep ((expression maxDepth).read noFlags ⟨text.toList, 0⟩) ∨
      (expression maxDepth).read noFlags ⟨text.toList, 0⟩ =
        .ok (e.readBack, ⟨[], e.readBack.captures.length⟩) :=
  (readsExpression_of_render he h).settles.outcome

/-- The tree of a text in the notation of PCRE that was written for a tree. -/
theorem parse_of_render {e : Regex} (he : e.Fit orderedDemands) {text : String}
    (h : e.render .pcre = .ok text) :
    (∃ f, parse .pcre text = .error f ∧ f.kind = .tooDeep) ∨ parse .pcre text = .ok e.readBack :=
  (readsExpression_of_render he h).parse.imp And.right And.right

end RegexDialects.Regex
