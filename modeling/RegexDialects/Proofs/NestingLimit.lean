import RegexDialects.Proofs.Settling

/-!
# Groups that the writer adds, and the limit of nesting

What a reader of PCRE accepts nests as deep as the limit allows, and is written with groups that the
pattern did not have. Those that make a text bind tightly enough do not matter: where one is needed
the pattern had a group, or what the text is part of has none in its place, so a tree that was read
nests within the limit if only these are counted (`nesting_le_of_parse`). The groups that the writer
needs for other reasons do matter, and can be one too many.

The first half follows the reader (`Ascent`). An atom may need a group before it is repeated, a
piece before it stands in a branch, and what stands in a group needs none.
-/

set_option autoImplicit false

namespace RegexDialects.Regex

open Form.Pcre Pattern Pattern.Pcre

/-! ## Trees that fit in so many levels -/

/-- Whether a tree can be written within so many levels where it may be repeated. -/
def FitsAtom (levels : Nat) (e : Regex) : Prop :=
  nesting 0 e + (if isRepetition e then 0 else e.wraps .piece) ≤ levels

/-- Whether a tree can be written within so many levels where it stands in a branch. -/
def FitsPiece (levels : Nat) (e : Regex) : Prop :=
  nesting 0 e + e.wraps .branch ≤ levels

theorem FitsAtom.nesting_le {levels : Nat} {e : Regex} (h : FitsAtom levels e) :
    nesting 0 e ≤ levels :=
  Nat.le_trans (Nat.le_add_right _ _) h

theorem FitsPiece.nesting_le {levels : Nat} {e : Regex} (h : FitsPiece levels e) :
    nesting 0 e ≤ levels :=
  Nat.le_trans (Nat.le_add_right _ _) h

theorem FitsAtom.piece {levels : Nat} {e : Regex} (h : FitsAtom levels e) :
    FitsPiece levels e := by
  unfold FitsAtom at h
  unfold FitsPiece
  cases hrep : isRepetition e with
  | true =>
    cases e <;> cases hrep
    exact h
  | false =>
    rw [hrep] at h
    exact Nat.le_trans (Nat.add_le_add_left (wraps_branch_le_wraps_piece e) _) h

/-- What takes no level takes none as an atom either, if it binds as tightly as a piece. -/
theorem fitsAtom_of_flat {levels : Nat} {e : Regex} (hn : nesting 0 e = 0)
    (hb : e.binding = .piece) : FitsAtom levels e := by
  have hwraps : e.wraps .piece = 0 := by
    unfold wraps
    rw [hb]
    rfl
  rw [FitsAtom, hn, hwraps, ite_self]
  exact Nat.zero_le levels

/-! ## Bracket expressions -/

theorem isBracketed_of_forall {l : List Regex}
    (h : ∀ e ∈ l, (bracketItem false e).isSome = true) : isBracketed l = true := by
  rw [isBracketed, Option.isSome_iff_ne_none]
  intro hnone
  obtain ⟨e, he, hitem⟩ := exists_bracketItem_eq_none hnone
  have hsome := h e he
  rw [hitem] at hsome
  cases hsome

theorem fitsAtom_bracketTree {levels : Nat} {negated : Bool} {ms : List Member} {e : Regex}
    (hn : ms ≠ []) (hms : ∀ m ∈ ms, m.IsSpelled)
    (h : bracketTree negated (ms.map Member.tree) = .ok e) : FitsAtom levels e := by
  cases negated with
  | false =>
    cases h
    -- The branches of the union are written as one bracket expression again.
    obtain ⟨l, hl, hne, hunion, -⟩ := exists_isBlock hms hn
    rw [hunion]
    rcases alt_of_isBlock hl hne with ⟨e, rfl, halt⟩ | halt
    · obtain ⟨hflat, -, hb⟩ :=
        flat_of_isSome_bracketItem (hl.isSome_bracketItem (List.mem_cons_self (a := e)))
      rw [halt]
      exact fitsAtom_of_flat (hflat 0) hb
    · rw [halt]
      apply fitsAtom_of_flat
      · exact nestingAll_of_bracketed fun e he => hl.isSome_bracketItem he
      · rw [binding, if_pos (isBracketed_of_forall fun e he => hl.isSome_bracketItem he)]
  | true =>
    rw [bracketTree_negated] at h
    cases h
    rcases conjunction_opposite ms with ⟨s, hc⟩ | ⟨k, hc⟩ | ⟨l, hc⟩ <;>
      rw [hc] <;> exact fitsAtom_of_flat rfl rfl

theorem leaves_fitsAtom (levels : Nat) : Leaves (FitsAtom levels) where
  literal := fun _ => fitsAtom_of_flat rfl rfl
  primitive := fun _ _ => fitsAtom_of_flat (ite_self 0) rfl
  backref := fun _ _ _ => fitsAtom_of_flat rfl rfl
  member := fun m _ => by cases m <;> exact fitsAtom_of_flat rfl rfl
  bracket := fitsAtom_bracketTree

/-! ## Sequences and choices -/

theorem fitsPiece_literal (levels : Nat) (t : List Char) : FitsPiece levels (.literal t) := by
  rw [FitsPiece, wraps_branch_of_isChoice_eq_false rfl]
  exact Nat.zero_le levels

theorem fitsPiece_text (levels : Nat) (t : List Char) : FitsPiece levels (.text t) := by
  unfold text
  split
  · exact Nat.zero_le levels
  · exact fitsPiece_literal levels t

theorem fitsPiece_of_mem_parts {levels : Nat} {e x : Regex} (h : FitsPiece levels e)
    (hx : x ∈ e.parts) : FitsPiece levels x := by
  induction e using inductionOn with
  | empty => simp [parts] at hx
  | sequence l ih =>
    rw [parts, partsAll_eq_flatMap, List.mem_flatMap] at hx
    obtain ⟨e, he, hx⟩ := hx
    exact ih e he (nestingAll_le_iff.1 h.nesting_le e he) hx
  | _ => rw [parts, List.mem_singleton] at hx <;> first | exact hx ▸ h | simp

/-- The parts of a sequence that is built fit where the pieces did. -/
theorem nesting_seq_le {levels : Nat} {l : List Regex} (h : ∀ e ∈ l, FitsPiece levels e) :
    nesting 0 (seq l) ≤ levels := by
  have hparts : ∀ x ∈ partsAll l, FitsPiece levels x := by
    intro x hx
    rw [partsAll_eq_flatMap] at hx
    obtain ⟨e, he, hx⟩ := List.mem_flatMap.1 hx
    exact fitsPiece_of_mem_parts (h e he) hx
  have hjoined : ∀ x ∈ joinText (partsAll l), FitsPiece levels x :=
    forall_mem_joinText (fun _ _ _ => fitsPiece_literal levels _) hparts
  rw [seq_eq_ofParts]
  generalize joinText (partsAll l) = m at hjoined ⊢
  match m with
  | [] => exact Nat.zero_le levels
  | [e] => exact (hjoined e List.mem_cons_self).nesting_le
  | e :: f :: m => exact nestingAll_le_iff.2 hjoined

theorem fitsPiece_of_mem_branches {levels : Nat} {e x : Regex} (h : nesting 0 e ≤ levels)
    (hx : x ∈ e.branches) : FitsPiece levels x := by
  rcases mem_branches hx with ⟨l, rfl, hx⟩ | ⟨rfl, hc, -⟩
  · exact nestingAll_le_iff.1 h x hx
  · rw [FitsPiece, wraps_branch_of_isChoice_eq_false hc]
    exact h

/-- The branches of a choice that is built fit where they stood before. -/
theorem nesting_alt_le {levels : Nat} {l : List Regex} (h : ∀ e ∈ l, nesting 0 e ≤ levels) :
    nesting 0 (alt l) ≤ levels := by
  have hbranches : ∀ x ∈ l.flatMap branches, FitsPiece levels x := by
    intro x hx
    obtain ⟨e, he, hx⟩ := List.mem_flatMap.1 hx
    exact fitsPiece_of_mem_branches (h e he) hx
  rw [alt_eq_ofBranches]
  generalize l.flatMap branches = m at hbranches ⊢
  match m with
  | [] => exact Nat.zero_le levels
  | [e] => exact (hbranches e List.mem_cons_self).nesting_le
  | e :: f :: m =>
    cases hm : (e :: f :: m).mapM plainSet? with
    | some sets =>
      rw [ofBranches_of_plain hm]
      exact Nat.zero_le levels
    | none =>
      rw [ofBranches_of_not_plain hm]
      exact nestingAll_le_iff.2 hbranches

/-! ## What is read fits -/

/-- A level more leaves room for the group that a text may need before it is repeated. -/
theorem fitsAtom_shy {levels : Nat} {e : Regex} (h : nesting 0 e ≤ levels) :
    FitsAtom (levels + 1) e := by
  have hwraps := wraps_le_one .piece e
  unfold FitsAtom
  split <;> omega

theorem fitsAtom_repeated {levels least : Nat} {most : Option Nat} {greedy : Bool} {e e' : Regex}
    (he : FitsAtom levels e) (hlt : e.repeatDepth < levels)
    (h : repeated least most greedy e = .ok e') : FitsAtom levels e' := by
  rcases repeated_cases h with ⟨-, rfl⟩ | ⟨-, rfl⟩
  · -- Nothing is left of it, but nothing needs a group before it is repeated.
    exact Nat.succ_le_of_lt (Nat.lt_of_le_of_lt (Nat.zero_le _) hlt)
  · exact Nat.max_le.2 ⟨he, hlt⟩

/-- What is read with so many levels left can be written within them, apart from groups of the
    writer's own. -/
theorem ascent_nesting : Ascent FitsAtom FitsPiece (fun levels e => nesting 0 e ≤ levels) where
  leaves := leaves_fitsAtom
  comment := fun levels => Nat.succ_le_succ (Nat.zero_le levels)
  shy := fitsAtom_shy
  group := fun h => Nat.succ_le_succ h
  repeated := fun he hlt _ h => fitsAtom_repeated he hlt h
  piece := FitsAtom.piece
  text := fitsPiece_text
  seq := nesting_seq_le
  alt := fun _ => nesting_alt_le

theorem nesting_le_of_parse {pattern : String} {e : Regex}
    (h : Regex.parse .pcre pattern = .ok e) : nesting 0 e ≤ maxDepth :=
  ascent_nesting.parse h

/-! ## What is written for it -/

/-- **What is written for an accepted pattern is accepted if it does not nest too deep, and nothing
    but groups of the writer's own can make it nest deeper than the pattern was allowed to.** -/
theorem parse_render_of_parse {pattern text : String} {e : Regex}
    (hp : Regex.parse .pcre pattern = .ok e) (hr : e.render .pcre = .ok text) :
    (nesting 1 e ≤ maxDepth → Regex.parse .pcre text = .ok e.readBack) ∧
      (maxDepth < nesting 1 e →
        ∃ f, Regex.parse .pcre text = .error f ∧ f.kind = .tooDeep) ∧
      nesting 0 e ≤ maxDepth ∧
      (e.Everywhere (fun x => bringsGroup x = false) →
        Regex.parse .pcre text = .ok e.readBack) := by
  have hfit : e.Fit orderedDemands := (fit_of_parse hp).imp readable_readDemands.ordered
  have hlimit := nesting_le_of_parse hp
  have haccepted : nesting 1 e ≤ maxDepth → Regex.parse .pcre text = .ok e.readBack := by
    intro hle
    rcases (readsExpression_of_render hfit hr).parse with ⟨hlt, -⟩ | ⟨-, hparse⟩
    · exact absurd hle (Nat.not_le.2 hlt)
    · exact hparse
  refine ⟨haccepted, ?_, hlimit, ?_⟩
  · intro hlt
    rcases (readsExpression_of_render hfit hr).parse with ⟨-, hdeep⟩ | ⟨hle, -⟩
    · exact hdeep
    · exact absurd hle (Nat.not_le.2 hlt)
  · intro hbrings
    exact haccepted (nesting_eq hbrings ▸ hlimit)

/-- Two groups of the writer's own, around a repetition that is repeated and around a reference. -/
theorem parse_render_of_parse_repeated_reference :
    Regex.parse .pcre "(a**)\\1\\x32" = .ok (.sequence [.group (.repetition 0 none true
        (.repetition 0 none true (.literal ['a']))), .backref 1, .literal ['2']]) ∧
      Regex.parse .pcre "((?:a*)*)(?:\\1)2" = .ok (.sequence [.group (.repetition 0 none true
        (.repetition 0 none true (.literal ['a']))), .backref 1, .literal ['2']]) := by
  have hparse : Regex.parse .pcre "(a**)\\1\\x32" = .ok (.sequence [.group (.repetition 0 none true
      (.repetition 0 none true (.literal ['a']))), .backref 1, .literal ['2']]) :=
    parse_eq_of_toOption (by decide +kernel)
  exact ⟨hparse, (parse_render_of_parse hparse rfl).1 (by decide)⟩

/-! ## At the limit -/

/-- A text in `n` pairs of parentheses. -/
def inParens : Nat → List Char → List Char
  | 0, text => text
  | n + 1, text => '(' :: inParens n text ++ [')']

/-- A tree in `n` groups. -/
def inGroups : Nat → Regex → Regex
  | 0, e => e
  | n + 1, e => .group (inGroups n e)

theorem readsExpression_inParens {need : Nat} {text : List Char} {e : Regex}
    (h : ReadsExpression need text e) (n : Nat) :
    ReadsExpression (need + n) (inParens n text) (inGroups n e) := by
  induction n with
  | zero => exact h
  | succ n ih =>
    have hatom := ih.group
    exact whole_of_pieces hatom.pieces (seq_singleton (e := .group (inGroups n e)) trivial) trivial
      hatom.starts.quantifies

theorem render_inGroups {e : Regex} {r : Rendered} (h : Form.Pcre.render e = .ok r) (n : Nat) :
    ∃ r', Form.Pcre.render (inGroups n e) = .ok r' ∧ r'.text = inParens n r.text := by
  induction n with
  | zero => exact ⟨r, h, rfl⟩
  | succ n ih =>
    obtain ⟨r', hr', htext⟩ := ih
    refine ⟨⟨'(' :: r'.text ++ [')'], .atom⟩, ?_, by rw [htext, inParens]⟩
    rw [inGroups, Form.Pcre.render, hr']
    rfl

/-- What is written for a tree in `n` groups stands in `n` pairs of parentheses. -/
theorem render_pcre_inGroups {e : Regex} {r : Rendered} (h : Form.Pcre.render e = .ok r) (n : Nat) :
    (inGroups n e).render .pcre = .ok (String.ofList (inParens n r.text)) := by
  obtain ⟨r', hr', htext⟩ := render_inGroups h n
  have hform : Form.text .pcre (inGroups n e) = .ok r'.text := map_eq_ok_iff.2 ⟨r', hr', rfl⟩
  rw [Regex.render, hform, htext]

theorem nesting_inGroups (own : Nat) (e : Regex) (n : Nat) :
    nesting own (inGroups n e) = nesting own e + n := by
  induction n with
  | zero => rfl
  | succ n ih => rw [inGroups, nesting, ih, Nat.add_assoc]

/-- A reference, and a digit that is written as an escape. -/
theorem readsExpression_reference_before_escape :
    ReadsExpression 0 ['\\', '1', '\\', 'x', '3', '2']
      (.sequence [.backref 1, .literal ['2']]) := by
  have hescape : ReadsAtom false 0 ['\\', 'x', '3', '2'] (.literal ['2']) :=
    readsAtom_of_ok (starts_backslash _) rfl fun _ groups rest => atom_backslash rfl
  have hreference : ReadsAtom true 0 ['\\', '1'] (.backref 1) :=
    readsAtom_backref (Nat.le_refl 1) (by decide)
  have hfollows : ∀ rest, Follows true (['\\', 'x', '3', '2'] ++ rest) :=
    follows_append hescape.starts fun _ => rfl
  have hpieces := hreference.pieces.append hescape.pieces fun rest _ => hfollows rest
  exact whole_of_pieces hpieces rfl (by decide) hreference.starts.quantifies

/-- **The limit can be passed**: a pattern that nests as deep as it may is accepted, but in what is
    written for it a group stands around the innermost reference, and that is refused. -/
theorem tooDeep_of_render_at_limit :
    Regex.parse .pcre (String.ofList (inParens maxDepth ['\\', '1', '\\', 'x', '3', '2'])) =
        .ok (inGroups maxDepth (.sequence [.backref 1, .literal ['2']])) ∧
      (inGroups maxDepth (.sequence [.backref 1, .literal ['2']])).render .pcre =
        .ok (String.ofList (inParens maxDepth ['(', '?', ':', '\\', '1', ')', '2'])) ∧
      ∃ f, Regex.parse .pcre
        (String.ofList (inParens maxDepth ['(', '?', ':', '\\', '1', ')', '2'])) = .error f ∧
          f.kind = .tooDeep := by
  have hparse : Regex.parse .pcre
      (String.ofList (inParens maxDepth ['\\', '1', '\\', 'x', '3', '2'])) =
        .ok (inGroups maxDepth (.sequence [.backref 1, .literal ['2']])) := by
    rw [Regex.parse, String.toList_ofList]
    rcases (readsExpression_inParens readsExpression_reference_before_escape maxDepth).parse with
      ⟨hlt, -⟩ | ⟨-, hparse⟩
    · exact absurd hlt (by decide)
    · exact hparse
  have hrender : (inGroups maxDepth (.sequence [.backref 1, .literal ['2']])).render .pcre =
      .ok (String.ofList (inParens maxDepth ['(', '?', ':', '\\', '1', ')', '2'])) :=
    render_pcre_inGroups (r := ⟨['(', '?', ':', '\\', '1', ')', '2'], .branch⟩) rfl maxDepth
  refine ⟨hparse, hrender, ?_⟩
  have hfit := (fit_of_parse hparse).imp readable_readDemands.ordered
  have hguarded : nesting 1 (.sequence [.backref 1, .literal ['2']]) = 1 := rfl
  rcases (readsExpression_of_render hfit hrender).parse with ⟨-, f, herror, hk⟩ | ⟨hle, -⟩
  · exact ⟨f, herror, hk⟩
  · rw [nesting_inGroups, hguarded] at hle
    exact absurd hle (by decide)

end RegexDialects.Regex
