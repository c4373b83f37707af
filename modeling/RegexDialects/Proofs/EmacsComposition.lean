import RegexDialects.Proofs.EmacsLookAhead
import RegexDialects.Proofs.GroupSorts
import RegexDialects.Proofs.Invariant

/-!
# Emacs patterns inside patterns

A pattern that is read by itself is read the same way inside a group. This is less plain than in
PCRE, since in Emacs a character may be an operator or not by its place: `^` at the start of a
branch, `$` at its end, `*`, `+` and `?` anywhere but at its start. A group begins and ends as a
pattern does.

As in PCRE, the proof runs the reader twice, on the pattern by itself and on the pattern with the
end of a group behind it (`Shifted`), and the second run repeats the first one (`Repeats`). The two
may start at different depths, and with different numbers of groups opened before. The latter is
seen by references, which are excluded, and by plain groups: there may be a number left for one in
the first run and none in the second (`emacs_composition_overflows`). Whether the numbers run out is
known from the sorts of the groups (`HasNumbers`), so both runs keep an account of them.
-/

set_option autoImplicit false

namespace RegexDialects.Pattern.Emacs

open Regex
open Pattern.Pcre (IsTooDeep)

variable {tail : List Char}

/-! ## Two runs -/

/-- Whether no backslash stands in front of one of the digits `1` to `9`. -/
def HasNoReference (text : List Char) : Prop :=
  ∀ d : Char, '1' ≤ d → d ≤ '9' → ¬ ['\\', d] <:+: text

theorem hasNoReference_of_all {text : List Char}
    (h : text.all (fun c => ¬ ('1' ≤ c ∧ c ≤ '9')) = true) : HasNoReference text := by
  intro d h1 h9 hd
  have hmem : d ∈ text := hd.subset (List.mem_cons_of_mem _ (List.mem_singleton.2 rfl))
  exact of_decide_eq_true (List.all_eq_true.1 h d hmem) ⟨h1, h9⟩

theorem HasNoReference.of_suffix {rest text : List Char} (h : HasNoReference text)
    (hs : rest <:+ text) : HasNoReference rest :=
  fun d h1 h9 hr => h d h1 h9 (hr.trans hs.isInfix)

/-- The place of the second run is that of the first one, with the end of a group behind. -/
structure Shifted (tail : List Char) (cur cur' : Cursor) : Prop where
  rest : cur'.rest = cur.rest ++ '\\' :: ')' :: tail
  groups : cur'.groups = cur.groups ∨ HasNoReference cur.rest

theorem Shifted.of_suffix {groups groups' : Numbering} {text rest : List Char}
    (h : Shifted tail ⟨text, groups⟩ ⟨text ++ '\\' :: ')' :: tail, groups'⟩) (hs : rest <:+ text) :
    Shifted tail ⟨rest, groups⟩ ⟨rest ++ '\\' :: ')' :: tail, groups'⟩ where
  rest := rfl
  groups := h.groups.imp_right fun hr => hr.of_suffix hs

/-- A group opens in both runs. -/
theorem Shifted.next {groups groups' start start' : Numbering} {text : List Char} {kind : GroupKind}
    (h : Shifted tail ⟨text, groups⟩ ⟨text ++ '\\' :: ')' :: tail, groups'⟩)
    (hn : groups.next? kind = some start) (hn' : groups'.next? kind = some start') :
    Shifted tail ⟨text, start⟩ ⟨text ++ '\\' :: ')' :: tail, start'⟩ where
  rest := rfl
  groups := by
    refine h.groups.imp_left ?_
    rintro rfl
    exact Option.some.inj (hn'.symm.trans hn)

/-- The second run returns what the first one did, at the same place, unless it gives up because of
    nesting. Or it breaks off because there is no number left for a group: this happens if the
    groups of the first run leave no `numbers` behind the groups before the second one. -/
inductive Repeats {α : Type} (tail : List Char) (numbers : Option Numbering)
    (r : Except Fault (α × Cursor)) (a : α) (next : Cursor) : Prop where
  | tooDeep (h : IsTooDeep r)
  | overflows {f : Fault} (h : r = .error f) (hkind : f.kind = .overflow) (hn : numbers = none)
  | returns (next' : Cursor) (h : r = .ok (a, next')) (hn : numbers = some next'.groups)
      (hnext : Shifted tail next next')

theorem repeats_of_ok {α : Type} {a : α} {next next' : Cursor} (h : Shifted tail next next') :
    Repeats tail (some next'.groups) (.ok (a, next')) a next :=
  .returns next' rfl rfl h

/-- What fails where `r` fails, and makes something of the value that `r` returns. -/
theorem Repeats.imp {α β : Type} {numbers : Option Numbering} {r : Except Fault (α × Cursor)}
    {a : α} {next : Cursor} (h : Repeats tail numbers r a next) {r' : Except Fault (β × Cursor)}
    {b : β} (herror : ∀ f, r = .error f → r' = .error f)
    (hok : ∀ next', r = .ok (a, next') → r' = .ok (b, next')) : Repeats tail numbers r' b next := by
  cases h with
  | tooDeep h =>
    obtain ⟨f, hr, hk⟩ := h
    exact .tooDeep ⟨f, herror f hr, hk⟩
  | overflows hr hk hn => exact .overflows (herror _ hr) hk hn
  | returns next' hr hn hnext => exact .returns next' (hok next' hr) hn hnext

/-- What fails where `r` fails, and goes on from the value that `r` returns. -/
theorem Repeats.bind {α β : Type} {numbers : Option Numbering} {r : Except Fault (α × Cursor)}
    {a : α} {mid : Cursor} (h : Repeats tail numbers r a mid) {next : Cursor}
    {k : Numbering → Option Numbering} {f : α × Cursor → Except Fault (β × Cursor)} {b : β}
    (hnext : ∀ mid', Shifted tail mid mid' → Repeats tail (k mid'.groups) (f (a, mid')) b next) :
    Repeats tail (numbers.bind k) (r >>= f) b next := by
  cases h with
  | tooDeep h =>
    obtain ⟨fault, rfl, hk⟩ := h
    exact .tooDeep ⟨fault, rfl, hk⟩
  | overflows hr hk hn =>
    subst hr hn
    exact .overflows rfl hk rfl
  | returns mid' hr hn hmid =>
    subst hr hn
    exact hnext mid' hmid

/-- A reading that opens no group is put back in both runs. -/
theorem repeats_resume {groups groups' : Numbering} {text text₁ text₂ : List Char} {next : Cursor}
    {e : Regex} {r r' : Reading Regex}
    (hc : Shifted tail ⟨text, groups⟩ ⟨text ++ '\\' :: ')' :: tail, groups'⟩)
    (h : Cursor.resume ⟨text₁, groups⟩ r = .ok (e, next)) (hs : next.rest <:+ text)
    (h' : IsTooDeep r' ∨ r' = .ok (e, next.rest ++ '\\' :: ')' :: tail)) :
    Repeats tail (some groups') (Cursor.resume ⟨text₂, groups'⟩ r') e next := by
  obtain ⟨rest, last⟩ := next
  rcases h' with ⟨f, rfl, hk⟩ | rfl
  · exact .tooDeep ⟨f, rfl, hk⟩
  · cases (congrArg (Cursor.resume _) (resume_ok h)).symm.trans h
    exact repeats_of_ok (hc.of_suffix hs)

/-- A second reader repeats what the first one reads, which it does at the places `inner`. -/
def Inside.IsRepeatedBy (tail : List Char) (inner : InsidePlaces) (inside inside' : Inside) :
    Prop :=
  ∀ ⦃cur cur' e next⦄, Shifted tail cur cur' → inside.read cur = .ok (e, next) →
    Repeats tail (cur'.groups.after? (sortsAt (inner cur))) (inside'.read cur') e next

/-! ## Groups and atoms -/

section Readers

variable {deeper deeper' : Option Inside} {inner : InsidePlaces} {cur cur' next : Cursor}
  {e : Regex} {levels : Nat}

/-- A group begins in the second run as it does in the first one. -/
theorem openGroup_close {text : List Char} {kind : GroupKind} {groups groups' : Numbering}
    {start : Cursor} (whole' : List Char) {whole : List Char}
    (h : openGroup whole ⟨text, groups⟩ = .ok (kind, start)) :
    openGroup whole' ⟨text ++ '\\' :: ')' :: tail, groups'⟩ =
      match groups'.next? kind with
      | none => .error ⟨.overflow, whole', start.rest ++ '\\' :: ')' :: tail⟩
      | some start' => .ok (kind, ⟨start.rest ++ '\\' :: ')' :: tail, start'⟩) := by
  have hread : GroupKind.read whole' (text ++ '\\' :: ')' :: tail) =
      .ok (kind, start.rest ++ '\\' :: ')' :: tail) :=
    GroupKind.read_close whole' (openGroup_eq_ok_iff.1 h).1
  cases hnext : groups'.next? kind <;> simp only [openGroup, hread, hnext]

/-- A group opens in the second run if there is a number left for it, and is read as before then. -/
theorem repeats_group (hi : ∀ i ∈ deeper, ∀ i' ∈ deeper', i.IsRepeatedBy tail inner i')
    {groups groups' : Numbering} {text : List Char}
    (hc : Shifted tail ⟨text, groups⟩ ⟨text ++ '\\' :: ')' :: tail, groups'⟩)
    (h : group deeper ⟨text, groups⟩ = .ok (e, next)) :
    Repeats tail (groups'.after? (atomSorts deeper inner ⟨'\\' :: '(' :: text, groups⟩))
      (group deeper' ⟨text ++ '\\' :: ')' :: tail, groups'⟩) e next := by
  cases deeper' with
  | none => exact .tooDeep ⟨_, rfl, rfl⟩
  | some inside' =>
    simp only [group] at h ⊢
    split at h
    · cases h
    · next inside =>
      split at h
      · cases h
      · next kind start hk =>
        rw [atomSorts_of_open hk, Numbering.after?_cons, openGroup_close _ hk]
        obtain ⟨hread, hnext⟩ := openGroup_eq_ok_iff.1 hk
        cases hn : groups'.next? kind with
        | none => exact .overflows rfl rfl rfl
        | some start' =>
          have hbody := (hc.of_suffix (GroupKind.read_suffix hread)).next hnext hn
          split at h
          · cases h
          · next after last hr =>
            cases h
            simp only [Option.bind_some]
            cases hi inside rfl inside' rfl hbody hr with
            | tooDeep hdeep =>
              obtain ⟨f, heq, hdeep⟩ := hdeep
              simp only [heq]
              exact .tooDeep ⟨f, rfl, hdeep⟩
            | overflows heq hk hnone =>
              simp only [heq]
              exact .overflows rfl hk hnone
            | returns next' heq hsome hnext =>
              obtain ⟨after', last'⟩ := next'
              obtain rfl : after' = '\\' :: ')' :: (after ++ '\\' :: ')' :: tail) := hnext.rest
              simp only [heq]
              refine .returns _ rfl hsome (hnext.of_suffix ?_)
              exact (List.suffix_cons _ _).trans (List.suffix_cons _ _)
          · cases h

/-- What stands behind a backslash is no reference where that matters. -/
theorem Shifted.escape {groups groups' : Numbering} {text : List Char}
    (h : Shifted tail ⟨'\\' :: text, groups⟩ ⟨'\\' :: text ++ '\\' :: ')' :: tail, groups'⟩) :
    groups'.highest = groups.highest ∨ ∀ c ∈ text.head?, ¬ ('1' ≤ c ∧ c ≤ '9') := by
  refine h.groups.imp (congrArg Numbering.highest) ?_
  rintro hr c hc ⟨h1, h9⟩
  cases text with
  | nil => cases hc
  | cons d text =>
    cases hc
    exact hr c h1 h9 ⟨[], text, rfl⟩

theorem repeats_leaf (hn : NoGroup cur) (hc : Shifted tail cur cur')
    (h : atom deeper cur = .ok (e, next)) :
    Repeats tail (some cur'.groups) (atom deeper' cur') e next := by
  obtain ⟨text, groups⟩ := cur
  obtain ⟨text', groups'⟩ := cur'
  obtain rfl : text' = text ++ '\\' :: ')' :: tail := hc.rest
  cases text with
  | nil => cases h
  | cons c text =>
    have hrest := hc.of_suffix (List.suffix_cons c text)
    by_cases hslash : c = '\\'
    · subst hslash
      cases text with
      | nil => cases h
      | cons d text =>
        have hd : d ≠ '(' := by
          rintro rfl
          exact hn text rfl
        rw [atom_escape hd] at h
        have he := resume_ok h
        rw [List.cons_append, List.cons_append, atom_escape hd]
        exact repeats_resume hrest h (escape_advances he).1 (Or.inr (escape_append hc.escape he))
    · by_cases hbracket : c = '['
      · subst hbracket
        have he := resume_ok h
        exact repeats_resume hrest h (BracketGrammar.read_advances he).1
          (Or.inr (BracketGrammar.read_append (localIn_emacs _ _) he))
      · by_cases hdot : c = '.'
        · subst hdot
          cases h
          exact repeats_of_ok hrest
        · by_cases hdollar : c = '$'
          · -- The end of a group is the end of a branch.
            subst hdollar
            cases h
            rw [← branchEnds_close text tail]
            exact repeats_of_ok hrest
          · rw [atom_plain hslash hbracket hdot hdollar] at h
            cases h
            rw [List.cons_append, atom_plain hslash hbracket hdot hdollar]
            exact repeats_of_ok hrest

theorem repeats_atom (hi : ∀ i ∈ deeper, ∀ i' ∈ deeper', i.IsRepeatedBy tail inner i')
    (hc : Shifted tail cur cur') (h : atom deeper cur = .ok (e, next)) :
    Repeats tail (cur'.groups.after? (atomSorts deeper inner cur)) (atom deeper' cur') e next := by
  by_cases hn : NoGroup cur
  · rw [atomSorts_of_noGroup hn]
    exact repeats_leaf hn hc h
  · obtain ⟨text, hr⟩ := not_forall_not.1 hn
    obtain ⟨_, groups⟩ := cur
    subst hr
    obtain ⟨text', groups'⟩ := cur'
    obtain rfl : text' = '\\' :: '(' :: (text ++ '\\' :: ')' :: tail) := hc.rest
    exact repeats_group hi
      (hc.of_suffix ((List.suffix_cons '(' text).trans (List.suffix_cons _ _))) h

/-! ## Pieces, branches and expressions -/

/-- A piece is a `^` at the start of a branch, or an atom and its quantifiers. -/
theorem piece_cons (deeper : Option Inside) (levels : Nat) (atStart : Bool) (c : Char)
    (text : List Char) (groups : Numbering) :
    piece deeper levels atStart ⟨c :: text, groups⟩ =
      if atStart = true ∧ c = '^' then .ok (.primitive .lineStart, ⟨text, groups⟩)
      else atom deeper ⟨c :: text, groups⟩ >>= fun r =>
        r.2.resume (quantified quantifiers (levels - r.1.repeatDepth) r.1 r.2.rest) := by
  unfold piece
  split
  · next heq =>
    cases heq
    rw [if_pos ⟨rfl, rfl⟩]
  · next hn =>
    rw [if_neg]
    · cases atom deeper ⟨c :: text, groups⟩ <;> rfl
    · rintro ⟨rfl, rfl⟩
      exact hn _ rfl rfl

theorem repeats_piece (hi : ∀ i ∈ deeper, ∀ i' ∈ deeper', i.IsRepeatedBy tail inner i')
    (levels' : Nat) {atStart : Bool} (hc : Shifted tail cur cur')
    (h : piece deeper levels atStart cur = .ok (e, next)) :
    Repeats tail (cur'.groups.after? (atomSorts deeper inner cur))
      (piece deeper' levels' atStart cur') e next := by
  obtain ⟨text, groups⟩ := cur
  obtain ⟨text', groups'⟩ := cur'
  obtain rfl : text' = text ++ '\\' :: ')' :: tail := hc.rest
  cases text with
  | nil => cases atStart <;> cases h
  | cons c text =>
    rw [piece_cons] at h
    rw [List.cons_append, piece_cons]
    split at h
    · next hcaret =>
      have hn : NoGroup ⟨c :: text, groups⟩ := by
        rintro _ ⟨⟩
        cases hcaret.2
      cases h
      rw [if_pos hcaret, atomSorts_of_noGroup hn]
      exact repeats_of_ok (hc.of_suffix (List.suffix_cons _ _))
    · next hcaret =>
      rw [if_neg hcaret]
      obtain ⟨⟨a, mid⟩, ha, h⟩ := bind_eq_ok_iff.1 h
      have hq := resume_ok h
      rw [← Option.bind_fun_some (Numbering.after? _ _)]
      refine (repeats_atom hi hc ha).bind ?_
      rintro ⟨text', groups'⟩ hmid
      obtain rfl : text' = mid.rest ++ '\\' :: ')' :: tail := hmid.rest
      exact repeats_resume hmid h (quantified_suffix hq) (quantified_close hq _)

/-- Pieces, one step at a time. -/
theorem pieces_of_not_ends {atStart : Bool} (hends : ¬ branchEnds cur.rest) :
    pieces deeper levels atStart cur =
      piece deeper levels atStart cur >>= fun r =>
        (pieces deeper levels false r.2).map fun l => (r.1 :: l.1, l.2) := by
  rw [pieces_eq, if_neg hends]
  cases piece deeper levels atStart cur with
  | error f => rfl
  | ok r => cases hl : pieces deeper levels false r.2 <;> simp [bind, Except.bind, hl, Except.map]

/-- Pieces end where they ended before, and until then both runs read one at a time. -/
theorem repeats_pieces (hi : ∀ i ∈ deeper, ∀ i' ∈ deeper', i.IsRepeatedBy tail inner i')
    (levels' : Nat) {atStart : Bool} {l : List Regex} (hc : Shifted tail cur cur')
    (h : pieces deeper levels atStart cur = .ok (l, next)) :
    Repeats tail (cur'.groups.after? (piecesSorts deeper inner levels atStart cur))
      (pieces deeper' levels' atStart cur') l next := by
  induction hn : cur.rest.length using Nat.strongRecOn generalizing cur cur' atStart l with
  | _ n ih =>
    have hends : branchEnds cur'.rest = branchEnds cur.rest := by
      rw [hc.rest, branchEnds_close]
    by_cases hb : branchEnds cur.rest
    · rw [pieces_eq, if_pos hb] at h
      rw [pieces_eq, hends, if_pos hb, piecesSorts_of_ends _ hb]
      cases h
      exact repeats_of_ok hc
    · rw [pieces_of_not_ends hb] at h
      rw [pieces_of_not_ends (hends.symm ▸ hb)]
      obtain ⟨⟨e, mid⟩, hp, h⟩ := bind_eq_ok_iff.1 h
      obtain ⟨⟨m, last⟩, hm, h⟩ := map_eq_ok_iff.1 h
      cases h
      rw [piecesSorts_of_piece hb hp, Numbering.after?_append]
      refine (repeats_piece hi levels' hc hp).bind ?_
      intro mid' hmid
      refine (ih _ (hn ▸ (piece_advances hp).2) hmid hm rfl).imp ?_ ?_
      · intro f heq
        exact map_eq_error_iff.2 heq
      · intro next' heq
        exact map_eq_ok_iff.2 ⟨_, heq, rfl⟩

theorem repeats_branch (hi : ∀ i ∈ deeper, ∀ i' ∈ deeper', i.IsRepeatedBy tail inner i')
    (levels' : Nat) (hc : Shifted tail cur cur') (h : branch deeper levels cur = .ok (e, next)) :
    Repeats tail (cur'.groups.after? (piecesSorts deeper inner levels true cur))
      (branch deeper' levels' cur') e next := by
  unfold branch at h ⊢
  split at h
  · cases h
  · next hl =>
    cases h
    refine (repeats_pieces hi levels' hc hl).imp ?_ ?_
    · intro f heq
      rw [heq]
    · intro next' heq
      rw [heq]

/-- The end of a group is no bar. -/
theorem not_bar_close {text : List Char} (h : ∀ l, text ≠ '\\' :: '|' :: l) (l : List Char) :
    text ++ '\\' :: ')' :: tail ≠ '\\' :: '|' :: l := by
  intro heq
  match text with
  | [] => cases heq
  | [c] => cases heq
  | c :: d :: text =>
    cases heq
    exact h _ rfl

/-- Both runs see the same bars. -/
theorem repeats_branches {levels' : Nat}
    (hi : ∀ i ∈ below levels, ∀ i' ∈ below levels', i.IsRepeatedBy tail inner i')
    {l : List Regex} (hc : Shifted tail cur cur')
    (h : branches (below levels) levels cur = .ok (l, next)) :
    Repeats tail (cur'.groups.after? (branchesSorts (below levels) inner levels cur))
      (branches (below levels') levels' cur') l next := by
  induction hn : cur.rest.length using Nat.strongRecOn generalizing cur cur' l with
  | _ n ih =>
    rw [branches_eq_finish] at h ⊢
    obtain ⟨⟨e, mid⟩, hb, h⟩ := bind_eq_ok_iff.1 h
    by_cases hbar : ∃ rest, mid.rest = '\\' :: '|' :: rest
    · obtain ⟨text, groups⟩ := mid
      obtain ⟨rest, rfl⟩ := hbar
      rw [branchesSorts_of_bar hb, Numbering.after?_append]
      refine (repeats_branch hi levels' hc hb).bind ?_
      intro mid' hmid
      obtain ⟨text', groups'⟩ := mid'
      obtain rfl : text' = '\\' :: '|' :: (rest ++ '\\' :: ')' :: tail) := hmid.rest
      obtain ⟨⟨m, last⟩, hm, h⟩ := map_eq_ok_iff.1 h
      cases h
      have hrest := hmid.of_suffix ((List.suffix_cons _ _).trans (List.suffix_cons _ _))
      refine (ih _ (hn ▸ lt_of_branch_bar hb) hrest hm rfl).imp ?_ ?_
      · intro f heq
        exact map_eq_error_iff.2 heq
      · intro next' heq
        exact map_eq_ok_iff.2 ⟨_, heq, rfl⟩
    · have hnone : ∀ l, mid.rest ≠ '\\' :: '|' :: l := fun l heq => hbar ⟨l, heq⟩
      rw [finish_of_not_bar _ _ hnone] at h
      cases h
      rw [branchesSorts_of_not_bar hb hnone, ← Option.bind_fun_some (Numbering.after? _ _)]
      refine (repeats_branch hi levels' hc hb).bind ?_
      intro mid' hmid
      rw [finish_of_not_bar]
      · exact repeats_of_ok hmid
      · intro l
        rw [hmid.rest]
        exact not_bar_close hnone l

end Readers

/-- An expression is read the same way at every level of nesting. -/
theorem repeats_expression (levels levels' : Nat) :
    (expression levels).IsRepeatedBy tail (expressionPlaces levels) (expression levels') := by
  induction levels using Nat.strongRecOn generalizing levels' with
  | _ levels ih =>
    have hi : ∀ i ∈ below levels, ∀ i' ∈ below levels',
        i.IsRepeatedBy tail (placesBelow levels) i' := by
      intro i hi i' hi'
      cases levels with
      | zero => cases hi
      | succ levels =>
        cases hi
        cases levels' with
        | zero => cases hi'
        | succ levels' =>
          cases hi'
          exact ih levels (Nat.lt_succ_self levels) levels'
    intro cur cur' e next hc h
    rw [read_expression] at h ⊢
    rw [sortsAt_expressionPlaces]
    obtain ⟨⟨l, last⟩, hl, h⟩ := map_eq_ok_iff.1 h
    cases h
    refine (repeats_branches hi hc hl).imp ?_ ?_
    · intro f heq
      exact map_eq_error_iff.2 heq
    · intro next' heq
      exact map_eq_ok_iff.2 ⟨_, heq, rfl⟩

/-! ## A pattern in front of the end of a group -/

/-- The outcome is `v`, or the reader gave up because of nesting. -/
def IsOrDeep {α : Type} (r v : Except ParseErrorKind α) : Prop :=
  r = .error .tooDeep ∨ r = v

theorem IsOrDeep.trans {α : Type} {r v w : Except ParseErrorKind α} (h : IsOrDeep r v)
    (h' : IsOrDeep v w) : IsOrDeep r w := by
  rcases h with h | rfl
  · exact Or.inl h
  · exact h'

theorem IsOrDeep.map {α β : Type} {r v : Except ParseErrorKind α} (h : IsOrDeep r v) (f : α → β) :
    IsOrDeep (r.map f) (v.map f) := by
  rcases h with rfl | rfl
  · exact Or.inl rfl
  · exact Or.inr rfl

/-- Goes on with the numbers that are left, if there were enough. -/
def withNumbers {α : Type} (numbers : Option Numbering) (f : Numbering → Except ParseErrorKind α) :
    Except ParseErrorKind α :=
  match numbers with
  | none => .error .overflow
  | some groups => f groups

theorem Repeats.isOrDeep {α : Type} {numbers : Option Numbering} {r : Except Fault (α × Cursor)}
    {a : α} {next : Cursor} (h : Repeats tail numbers r a next) :
    IsOrDeep (r.mapError Fault.kind)
      (withNumbers numbers fun groups => .ok (a, ⟨next.rest ++ '\\' :: ')' :: tail, groups⟩)) := by
  cases h with
  | tooDeep h => exact Or.inl (mapError_eq_error_iff.2 h)
  | overflows hr hk hn =>
    subst hn
    exact Or.inr (mapError_eq_error_iff.2 ⟨_, hr, hk⟩)
  | returns next' hr hn hnext =>
    subst hr hn
    rw [← hnext.rest]
    exact Or.inr rfl

theorem read_of_parse {text : List Char} {e : Regex} (h : parse text = .ok e) :
    ∃ groups, (expression maxDepth).read ⟨text, 0⟩ = .ok (e, ⟨[], groups⟩) := by
  unfold parse at h
  split at h
  · cases h
  · next heq =>
    cases h
    exact ⟨_, heq⟩
  · cases h

/-- A pattern that is accepted has numbers for its groups. -/
theorem exists_numbers_of_parse {text : List Char} {e : Regex} (h : parse text = .ok e) :
    ∃ groups, (0 : Numbering).after? (sorts text) = some groups := by
  obtain ⟨groups, hread⟩ := read_of_parse h
  exact ⟨groups, after?_sorts_of_read hread⟩

/-- What is read as a pattern is read in front of the end of a group as well, at any depth, as long
    as there are numbers for its groups. -/
theorem read_close_of_parse {text : List Char} {e : Regex} (h : parse text = .ok e)
    {groups : Numbering} (hg : groups = 0 ∨ HasNoReference text) (rest : List Char)
    (levels : Nat) :
    IsOrDeep (((expression levels).read ⟨text ++ '\\' :: ')' :: rest, groups⟩).mapError Fault.kind)
      (withNumbers (groups.after? (sorts text)) fun last =>
        .ok (e, ⟨'\\' :: ')' :: rest, last⟩)) := by
  obtain ⟨last, hread⟩ := read_of_parse h
  have hc : Shifted rest ⟨text, 0⟩ ⟨text ++ '\\' :: ')' :: rest, groups⟩ := ⟨rfl, hg⟩
  exact (repeats_expression maxDepth levels hc hread).isOrDeep

/-! ## Compositions -/

section Compositions

open Shared

/-- A pattern in a group. -/
def grouped (capturing : Bool) (text : List Char) : List Char :=
  opening .emacs capturing ++ (text ++ ['\\', ')'])

/-- What is read as a pattern is read in a group, at the start of a pattern or if it refers to no
    group. In a group that captures it must not be taken for the sort of the group. -/
structure Stands (capturing : Bool) (text : List Char) (e : Regex) (groups : Numbering) : Prop where
  parse : parse text = .ok e
  head : capturing = true → ∀ c ∈ text.head?, c ≠ '?'
  groups : (capturing = false ∧ groups = 0) ∨ HasNoReference text

variable {capturing : Bool} {text rest : List Char} {e : Regex} {groups : Numbering}

/-- A group that captures nothing needs no number. -/
theorem after?_kindOf_false (groups : Numbering) (kinds : List GroupKind) :
    groups.after? (kindOf false :: kinds) = groups.after? kinds :=
  Numbering.after?_cons groups .shy kinds

/-- A group for which there is no number left. -/
theorem atom_opening_of_full (levels : Nat) {inner : List Char}
    (hn : capturing = true → ∀ c ∈ inner.head?, c ≠ '?')
    (hnext : groups.next? (kindOf capturing) = none) :
    (atom (below (levels + 1)) ⟨opening .emacs capturing ++ inner, groups⟩).mapError Fault.kind =
      .error .overflow := by
  show (group (some (expression levels))
    ⟨(if capturing then [] else ['?', ':']) ++ inner, groups⟩).mapError Fault.kind = _
  simp only [group, openGroup, read_opening hn, hnext]
  rfl

/-- A pattern in a group is an atom. -/
theorem Stands.atom (h : Stands capturing text e groups) (rest : List Char) :
    IsOrDeep
      ((atom (below maxDepth) ⟨grouped capturing text ++ rest, groups⟩).mapError Fault.kind)
      (withNumbers (groups.after? (kindOf capturing :: sorts text)) fun last =>
        .ok (wrap capturing e, ⟨rest, last⟩)) := by
  have htext : grouped capturing text ++ rest =
      opening .emacs capturing ++ (text ++ '\\' :: ')' :: rest) := by
    simp [grouped]
  have hhead : capturing = true → ∀ c ∈ (text ++ '\\' :: ')' :: rest).head?, c ≠ '?' :=
    fun hcap => GroupKind.head_close_ne (h.head hcap)
  rw [htext, Numbering.after?_cons]
  cases hnext : groups.next? (kindOf capturing) with
  | none => exact Or.inr (atom_opening_of_full _ hhead hnext)
  | some start =>
    have hstart : start = 0 ∨ HasNoReference text := by
      refine h.groups.imp_left ?_
      rintro ⟨rfl, rfl⟩
      cases hnext
      rfl
    obtain ⟨whole, hatom⟩ := atom_opening (maxDepth - 1) hhead hnext
    have hread := read_close_of_parse h.parse hstart rest (maxDepth - 1)
    show IsOrDeep ((Emacs.atom (below (maxDepth - 1 + 1)) _).mapError _) _
    rw [hatom, Option.bind_some]
    rcases hread with hdeep | hread
    · obtain ⟨f, hf, hk⟩ := mapError_eq_error_iff.1 hdeep
      rw [hf]
      exact Or.inl (congrArg Except.error hk)
    -- The closing parenthesis is there, if what stands in front of it could be read.
    · cases hn : start.after? (sorts text) with
      | none =>
        rw [hn] at hread
        obtain ⟨f, hf, hk⟩ := mapError_eq_error_iff.1 hread
        rw [hf]
        exact Or.inr (congrArg Except.error hk)
      | some last =>
        rw [hn] at hread
        rw [mapError_eq_ok_iff.1 hread]
        exact Or.inr rfl

/-- A branch goes on behind a pattern in a group and a quantifier. -/
theorem Stands.readOn (h : Stands capturing text e groups) (atStart : Bool) (done : List Regex)
    (q : Option Quantity) (ht : NoQuantifier rest) :
    IsOrDeep
      ((readOn maxDepth atStart done
        ⟨grouped capturing text ++ (quantityText .emacs q ++ rest), groups⟩).mapError Fault.kind)
      (withNumbers (groups.after? (kindOf capturing :: sorts text)) fun last =>
        quantify (maxDepth - (wrap capturing e).repeatDepth) (wrap capturing e) q >>= fun e =>
          (Emacs.readOn maxDepth false (done ++ [e]) ⟨rest, last⟩).mapError Fault.kind) := by
  have hstarts : Starts (grouped capturing text ++ (quantityText .emacs q ++ rest)) := by
    rw [grouped, List.append_assoc]
    exact starts_opening capturing _
  rcases h.atom (quantityText .emacs q ++ rest) with hdeep | hatom
  · exact Or.inl (readOn_of_atom (r := .error .tooDeep) atStart done groups q
      hstarts ht hdeep)
  · cases hn : groups.after? (kindOf capturing :: sorts text) with
    | none =>
      rw [hn] at hatom
      exact Or.inr (readOn_of_atom (r := .error .overflow) atStart done groups q
        hstarts ht hatom)
    | some last =>
      rw [hn] at hatom
      exact Or.inr (readOn_of_atom (r := .ok (wrap capturing e)) atStart done last q hstarts ht
        hatom)

theorem readOn_nil (levels : Nat) (atStart : Bool) (done : List Regex) (groups : Numbering) :
    readOn levels atStart done ⟨[], groups⟩ = .ok ([.seq done], ⟨[], groups⟩) := by
  rw [readOn_of_ends rfl, finish_of_not_bar _ _ (by rintro l ⟨⟩)]

/-- A text is read as `e` as long as there are numbers for its groups, or refused because of
    nesting. -/
def ReadsAs (numbers : Option Numbering) (text : List Char) (e : Regex) : Prop :=
  IsOrDeep ((parse text).mapError ParseError.kind) (withNumbers numbers fun _ => .ok e)

/-- A text is read to its end. -/
theorem readsAs_of_readOn {numbers : Option Numbering} {l : List Regex}
    (h : IsOrDeep ((readOn maxDepth true [] ⟨text, 0⟩).mapError Fault.kind)
      (withNumbers numbers fun last => .ok (l, ⟨[], last⟩))) :
    ReadsAs numbers text (.alt l) := by
  rw [readOn_start] at h
  unfold ReadsAs parse
  rw [read_expression]
  rcases h with h | h
  · obtain ⟨f, hf, hk⟩ := mapError_eq_error_iff.1 h
    rw [hf]
    exact Or.inl (congrArg Except.error hk)
  · cases numbers with
    | none =>
      obtain ⟨f, hf, hk⟩ := mapError_eq_error_iff.1 h
      rw [hf]
      exact Or.inr (congrArg Except.error hk)
    | some last =>
      rw [mapError_eq_ok_iff.1 h]
      exact Or.inr rfl

/-- A text that is read as one branch. -/
theorem readsAs_of_branch {numbers : Option Numbering} {l : List Regex} (hl : (seq l).IsNormal)
    (h : IsOrDeep ((readOn maxDepth true [] ⟨text, 0⟩).mapError Fault.kind)
      (withNumbers numbers fun last => .ok ([.seq l], ⟨[], last⟩))) :
    ReadsAs numbers text (seq l) := by
  rw [← alt_singleton hl]
  exact readsAs_of_readOn h

theorem fit_readDemands_of_parse (h : parse text = .ok e) : e.Fit readDemands :=
  keeps_parse assembly_readDemands.product h

variable {u v : List Char} {eu ev : Regex}

/-- Two patterns in groups, one behind the other. -/
theorem readsAs_seq (hu : parse u = .ok eu) (hv : parse v = .ok ev) (hr : HasNoReference v) :
    ReadsAs ((0 : Numbering).after? (sorts u ++ sorts v)) (grouped false u ++ grouped false v)
      (seq [eu, ev]) := by
  have hfit : ∀ e ∈ [eu, ev], e.Fit readDemands := by
    intro e he
    rcases List.mem_cons.1 he with rfl | he
    · exact fit_readDemands_of_parse hu
    · rw [List.mem_singleton.1 he]
      exact fit_readDemands_of_parse hv
  have hv' : NoQuantifier (grouped false v) := noQuantifier_backslash (by decide)
  obtain ⟨groups, hgroups⟩ := exists_numbers_of_parse hu
  have hfirst :=
    (Stands.mk hu nofun (Or.inl ⟨rfl, rfl⟩) : Stands false u eu 0).readOn true [] none hv'
  have hsecond :=
    (Stands.mk hv nofun (Or.inr hr) : Stands false v ev groups).readOn false [eu] none
      noQuantifier_nil
  rw [after?_kindOf_false, hgroups] at hfirst
  rw [after?_kindOf_false] at hsecond
  rw [quantityText, List.append_nil, List.append_nil] at hsecond
  rw [Numbering.after?_append, hgroups]
  refine readsAs_of_branch (fit_seq hfit).isNormal (hfirst.trans (hsecond.trans ?_))
  simp only [readOn_nil]
  exact Or.inr rfl

/-- Two patterns in groups, with a bar between them. -/
theorem readsAs_alt (hu : parse u = .ok eu) (hv : parse v = .ok ev) (hr : HasNoReference v) :
    ReadsAs ((0 : Numbering).after? (sorts u ++ sorts v))
      (grouped false u ++ '\\' :: '|' :: grouped false v) (alt [eu, ev]) := by
  have hu1 := seq_singleton (fit_readDemands_of_parse hu).isNormal
  have hv1 := seq_singleton (fit_readDemands_of_parse hv).isNormal
  have hbar : NoQuantifier ('\\' :: '|' :: grouped false v) := noQuantifier_backslash (by decide)
  obtain ⟨groups, hgroups⟩ := exists_numbers_of_parse hu
  have hfirst :=
    (Stands.mk hu nofun (Or.inl ⟨rfl, rfl⟩) : Stands false u eu 0).readOn true [] none hbar
  have hsecond :=
    (Stands.mk hv nofun (Or.inr hr) : Stands false v ev groups).readOn true [] none
      noQuantifier_nil
  rw [after?_kindOf_false, hgroups] at hfirst
  rw [after?_kindOf_false] at hsecond
  rw [quantityText, List.append_nil, List.append_nil] at hsecond
  rw [Numbering.after?_append, hgroups]
  refine readsAs_of_readOn (hfirst.trans ?_)
  have hnext : (Emacs.readOn maxDepth false [eu]
      ⟨'\\' :: '|' :: grouped false v, groups⟩).mapError Fault.kind =
        ((Emacs.readOn maxDepth true [] ⟨grouped false v, groups⟩).mapError Fault.kind).map
          fun r => (eu :: r.1, r.2) := by
    rw [readOn_of_ends rfl, finish_bar, readOn_start, hu1]
    cases branches (below maxDepth) maxDepth ⟨grouped false v, groups⟩ <;> rfl
  show IsOrDeep ((Emacs.readOn maxDepth false [eu] _).mapError _) _
  rw [hnext]
  refine (hsecond.map _).trans (Or.inr ?_)
  show _ = withNumbers (groups.after? (sorts v)) _
  cases groups.after? (sorts v) with
  | none => rfl
  | some last =>
    show ((Emacs.readOn maxDepth false [ev] ⟨[], last⟩).mapError _).map _ = _
    rw [readOn_nil, hv1]
    rfl

/-- A pattern in a group, and an operator behind it. -/
theorem readsAs_repeated (hv : parse v = .ok ev) :
    ReadsAs ((0 : Numbering).after? (sorts v)) (grouped false v ++ ['*'])
      (.repetition 0 none true ev) := by
  have hnormal : (repetition 0 none true ev).IsNormal := by
    intro m hm
    cases hm
  have hseq := seq_singleton hnormal
  obtain ⟨groups, hgroups⟩ := exists_numbers_of_parse hv
  have hfirst :=
    (Stands.mk hv nofun (Or.inl ⟨rfl, rfl⟩) : Stands false v ev 0).readOn true []
      (some (.operator '*' 0 none rfl true)) noQuantifier_nil
  rw [after?_kindOf_false, hgroups] at hfirst
  rw [← hseq, hgroups]
  refine readsAs_of_branch (hseq.symm ▸ hnormal) (hfirst.trans ?_)
  -- The last level may have been used up by repetitions inside.
  cases hb : maxDepth - (wrap false ev).repeatDepth with
  | zero => exact Or.inl rfl
  | succ budget => exact Or.inr (congrArg (Except.mapError _) (readOn_nil maxDepth false _ groups))

/-- A pattern in parentheses. -/
theorem readsAs_group (hv : parse v = .ok ev) (hq : ∀ c ∈ v.head?, c ≠ '?')
    (hr : HasNoReference v) :
    ReadsAs ((0 : Numbering).after? (.implicit :: sorts v)) (grouped true v) (.group ev) := by
  have hseq := seq_singleton (e := Regex.group ev) trivial
  have hfirst :=
    (Stands.mk hv (fun _ => hq) (Or.inr hr) : Stands true v ev 0).readOn true [] none
      noQuantifier_nil
  rw [quantityText, List.append_nil, List.append_nil] at hfirst
  rw [← hseq]
  refine readsAs_of_branch (hseq.symm ▸ trivial) (hfirst.trans ?_)
  simp only [readOn_nil]
  exact Or.inr rfl

end Compositions

end RegexDialects.Pattern.Emacs

namespace RegexDialects.Regex

open Pattern Pattern.Emacs

/-- A pattern is read as `e`, unless it nests too deep, if there are numbers for groups of
    the sorts `kinds`; else reading breaks off at a group for which there is none, if not before. -/
def IsReadIfNumbered (kinds : List GroupKind) (pattern : String) (e : Regex) : Prop :=
  (HasNumbers kinds → IsReadAs .emacs pattern e) ∧
    (¬ HasNumbers kinds → ∃ f, Regex.parse .emacs pattern = .error f ∧
      (f.kind = .tooDeep ∨ f.kind = .overflow))

theorem isReadIfNumbered_of_readsAs {kinds : List GroupKind} {pattern : String} {e : Regex}
    (h : ReadsAs ((0 : Numbering).after? kinds) pattern.toList e) :
    IsReadIfNumbered kinds pattern e := by
  unfold ReadsAs at h
  constructor
  · intro hn
    obtain ⟨last, hlast⟩ := Option.isSome_iff_exists.1 hn
    rw [hlast] at h
    exact h.imp mapError_eq_error_iff.1 mapError_eq_ok_iff.1
  · intro hn
    rw [Option.not_isSome_iff_eq_none.1 hn] at h
    rcases h with h | h
    · obtain ⟨f, hf, hk⟩ := mapError_eq_error_iff.1 h
      exact ⟨f, hf, Or.inl hk⟩
    · obtain ⟨f, hf, hk⟩ := mapError_eq_error_iff.1 h
      exact ⟨f, hf, Or.inr hk⟩

/-- **Reading Emacs patterns is compositional**, as long as there are numbers for all groups:
    patterns keep their trees when they are put into groups, one behind the other, next to a bar,
    under an operator or in parentheses. What is an operator by its place in a pattern is one at the
    same place in a group. There are numbers, whatever the order of the groups, if no number that a
    group has for its own comes too close to the largest one. -/
theorem emacs_composition {u v : String} {eu ev : Regex}
    (hu : Regex.parse .emacs u = .ok eu) (hv : Regex.parse .emacs v = .ok ev)
    (hr : HasNoReference v.toList) :
    IsReadIfNumbered (sorts u.toList ++ sorts v.toList)
        ("\\(?:" ++ u ++ "\\)\\(?:" ++ v ++ "\\)") (seq [eu, ev]) ∧
      IsReadIfNumbered (sorts u.toList ++ sorts v.toList)
        ("\\(?:" ++ u ++ "\\)\\|\\(?:" ++ v ++ "\\)") (alt [eu, ev]) ∧
      (∃ e, repeated 0 none true ev = .ok e ∧ IsReadAs .emacs ("\\(?:" ++ v ++ "\\)*") e) ∧
      ((∀ c ∈ v.toList.head?, c ≠ '?') →
        IsReadIfNumbered (.implicit :: sorts v.toList) ("\\(" ++ v ++ "\\)") (.group ev)) ∧
      ∀ kinds : List GroupKind,
        (∀ n, .numbered n ∈ kinds → n + kinds.count .implicit ≤ maxNumber) → HasNumbers kinds := by
  have hreads : ∀ {pattern : String} {text : List Char} {kinds : List GroupKind} {e : Regex},
      pattern.toList = text → ReadsAs ((0 : Numbering).after? kinds) text e →
        IsReadIfNumbered kinds pattern e := by
    rintro pattern text kinds e rfl h
    exact isReadIfNumbered_of_readsAs h
  refine ⟨?_, ?_, ⟨_, rfl, ?_⟩, ?_, fun _ => hasNumbers_of_le⟩
  · refine hreads ?_ (readsAs_seq hu hv hr)
    simp [grouped, Shared.opening, Shared.mark]
  · refine hreads ?_ (readsAs_alt hu hv hr)
    simp [grouped, Shared.opening, Shared.mark]
  · have hn : HasNumbers (sorts v.toList) :=
      Option.isSome_iff_exists.2 (exists_numbers_of_parse hv)
    refine (hreads ?_ (readsAs_repeated hv)).1 hn
    simp [grouped, Shared.opening, Shared.mark]
  · intro hq
    refine hreads ?_ (readsAs_group hv hq hr)
    simp [grouped, Shared.opening, Shared.mark]

/-- An asterisk, a plus sign and all anchors mean the same in groups: the first two are characters
    here, since they stand at the start of a branch and behind its `^`. -/
theorem emacs_composition_anchors :
    Regex.parse .emacs "*a$\\|^b" = .ok (.choice [.sequence [.literal ['*', 'a'],
        .primitive .lineEnd], .sequence [.primitive .lineStart, .literal ['b']]]) ∧
      Regex.parse .emacs "^+\\(c\\)$" = .ok (.sequence [.primitive .lineStart, .literal ['+'],
        .group (.literal ['c']), .primitive .lineEnd]) ∧
      IsReadAs .emacs ("\\(?:" ++ "*a$\\|^b" ++ "\\)\\(?:" ++ "^+\\(c\\)$" ++ "\\)")
        (.sequence [.choice [.sequence [.literal ['*', 'a'], .primitive .lineEnd],
          .sequence [.primitive .lineStart, .literal ['b']]], .primitive .lineStart,
          .literal ['+'], .group (.literal ['c']), .primitive .lineEnd]) ∧
      IsReadAs .emacs ("\\(?:" ++ "*a$\\|^b" ++ "\\)\\|\\(?:" ++ "^+\\(c\\)$" ++ "\\)")
        (.choice [.sequence [.literal ['*', 'a'], .primitive .lineEnd],
          .sequence [.primitive .lineStart, .literal ['b']], .sequence [.primitive .lineStart,
          .literal ['+'], .group (.literal ['c']), .primitive .lineEnd]]) ∧
      IsReadAs .emacs ("\\(?:" ++ "^+\\(c\\)$" ++ "\\)*")
        (.repetition 0 none true (.sequence [.primitive .lineStart, .literal ['+'],
          .group (.literal ['c']), .primitive .lineEnd])) ∧
      IsReadAs .emacs ("\\(" ++ "^+\\(c\\)$" ++ "\\)")
        (.group (.sequence [.primitive .lineStart, .literal ['+'], .group (.literal ['c']),
          .primitive .lineEnd])) := by
  have hu : Regex.parse .emacs "*a$\\|^b" = .ok (.choice [.sequence [.literal ['*', 'a'],
      .primitive .lineEnd], .sequence [.primitive .lineStart, .literal ['b']]]) :=
    parse_eq_of_toOption (by decide +kernel)
  have hv : Regex.parse .emacs "^+\\(c\\)$" = .ok (.sequence [.primitive .lineStart,
      .literal ['+'], .group (.literal ['c']), .primitive .lineEnd]) :=
    parse_eq_of_toOption (by decide +kernel)
  have hr : HasNoReference "^+\\(c\\)$".toList := hasNoReference_of_all (by decide)
  have hsorts : HasNumbers (sorts "*a$\\|^b".toList ++ sorts "^+\\(c\\)$".toList) := by
    decide +kernel
  have hsorts' : HasNumbers (.implicit :: sorts "^+\\(c\\)$".toList) := by
    decide +kernel
  have hq : ∀ c ∈ "^+\\(c\\)$".toList.head?, c ≠ '?' := by
    rintro c ⟨⟩
    decide
  obtain ⟨hseq, halt, ⟨e, hrep, he⟩, hgroup, -⟩ := emacs_composition hu hv hr
  cases hrep
  exact ⟨hu, hv, hseq.1 hsorts, halt.1 hsorts, he, (hgroup hq).1 hsorts'⟩

/-- Behind a group with the largest number there is none left for the group of the second pattern,
    which is accepted by itself. -/
theorem emacs_composition_overflows :
    Regex.parse .emacs "\\(?4294967295:a\\)" = .ok (.group (.literal ['a'])) ∧
      Regex.parse .emacs "\\(b\\)" = .ok (.group (.literal ['b'])) ∧
      HasNoReference "\\(b\\)".toList ∧
      ¬ IsReadAs .emacs ("\\(?:" ++ "\\(?4294967295:a\\)" ++ "\\)\\(?:" ++ "\\(b\\)" ++ "\\)")
        (seq [.group (.literal ['a']), .group (.literal ['b'])]) := by
  have hparse : Regex.parse .emacs
      ("\\(?:" ++ "\\(?4294967295:a\\)" ++ "\\)\\(?:" ++ "\\(b\\)" ++ "\\)") =
        .error ⟨.overflow, 27, "\\(".toList⟩ := by
    decide +kernel
  refine ⟨parse_eq_of_toOption (by decide +kernel), parse_eq_of_toOption (by decide +kernel),
    hasNoReference_of_all (by decide), ?_⟩
  rintro (⟨f, hf, hdeep⟩ | hok)
  · cases hparse.symm.trans hf
    cases hdeep
  · cases hparse.symm.trans hok

end RegexDialects.Regex
