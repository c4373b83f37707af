import Mathlib.Data.List.Chain
import RegexDialects.Proofs.EmacsFaults
import RegexDialects.Proofs.Outcome
import RegexDialects.Proofs.ReferenceLog

/-!
# The places of a reading

The reader of Emacs patterns goes from place to place: a place is a rest of the pattern together
with the numbers of the groups so far. This module lists the places at which a piece is read, or the
end of a branch is seen, in the order in which they are reached (`places`). The list is there for
every pattern, and ends where the reader gives up in case it does.

There are two ways from one place to the next (`Step`): a group opens, or none does and the numbers
stay what they are. The invariant of a reader (`Inside.Visits`) is that its places are connected by
such steps, the first one being where it starts, and the last one where it stops if it succeeds. So
what holds of steps holds of readings, by induction on the list.
-/

set_option autoImplicit false

namespace RegexDialects.Pattern.Emacs

/-! ## Steps -/

/-- A group of the sort `kind` opens at `c`, and `c'` is the first place inside. -/
def Opens (kind : GroupKind) (c c' : Cursor) : Prop :=
  ∃ text, c.rest = '\\' :: '(' :: text ∧ openGroup c.rest ⟨text, c.groups⟩ = .ok (kind, c')

/-- No group begins at a place. -/
def NoGroup (c : Cursor) : Prop :=
  ∀ text, c.rest ≠ '\\' :: '(' :: text

/-- The ways from one place to the next. -/
inductive Step (c c' : Cursor) : Prop where
  | opens (kind : GroupKind) (h : Opens kind c c')
  | goesOn (hn : NoGroup c) (hs : c'.rest <:+ c.rest) (hg : c'.groups = c.groups)

/-! ## Places -/

/-- The places at which what stands inside a group is read. -/
abbrev InsidePlaces := Cursor → List Cursor

variable (deeper : Option Inside) (inner : InsidePlaces)

/-- The places inside the group that opens at `cur`, if one does. -/
def groupPlaces (cur : Cursor) : List Cursor :=
  match deeper, cur.rest with
  | some _, '\\' :: '(' :: text =>
    match openGroup cur.rest ⟨text, cur.groups⟩ with
    | .error _ => []
    | .ok (_, start) => inner start
  | _, _ => []

/-- The places of `pieces`. -/
def piecesPlaces (levels : Nat) (atStart : Bool) (cur : Cursor) : List Cursor :=
  if branchEnds cur.rest then [cur]
  else
    match h : piece deeper levels atStart cur with
    | .error _ => cur :: groupPlaces deeper inner cur
    | .ok (_, next) =>
      have : next.rest.length < cur.rest.length := (piece_advances h).2
      cur :: groupPlaces deeper inner cur ++ piecesPlaces levels false next
termination_by cur.rest.length

/-- The places of `branches`. -/
def branchesPlaces (levels : Nat) (cur : Cursor) : List Cursor :=
  match h : branch deeper levels cur with
  | .ok (_, ⟨'\\' :: '|' :: rest, groups⟩) =>
    have : rest.length < cur.rest.length := lt_of_branch_bar h
    piecesPlaces deeper inner levels true cur ++ branchesPlaces levels ⟨rest, groups⟩
  | _ => piecesPlaces deeper inner levels true cur
termination_by cur.rest.length

/-- The places of `expression`. -/
def expressionPlaces : Nat → InsidePlaces
  | 0 => branchesPlaces none (fun _ => []) 0
  | levels + 1 => branchesPlaces (some (expression levels)) (expressionPlaces levels) (levels + 1)

/-- The places at which a pattern is read. -/
def places (pattern : List Char) : List Cursor :=
  expressionPlaces maxDepth ⟨pattern, 0⟩

/-! ## The invariant -/

/-- The group that begins at `c` does not open, and this is why. -/
def Blocked (c : Cursor) (f : Fault) : Prop :=
  f.kind = .tooDeep ∨
    ∃ text, c.rest = '\\' :: '(' :: text ∧ openGroup c.rest ⟨text, c.groups⟩ = .error f

/-- The places `l` are those of a reading that starts at `cur` and comes to `r`: they are connected
    by steps from there to where the reading stops, or gives up. -/
structure Traces {α : Type} (l : List Cursor) (cur : Cursor) (r : Except Fault (α × Cursor)) :
    Prop where
  head : l.head? = some cur
  chain : l.IsChain Step
  last : ∀ ⦃a next⦄, r = .ok (a, next) → l.getLast? = some next
  refused : ∀ ⦃f⦄, r = .error f → Refused l cur.rest f
  /-- A group that begins at the last place has not opened. -/
  blocked : ∀ c ∈ l.getLast?, ¬ NoGroup c → ∃ f, r = .error f ∧ Blocked c f

/-- A reader reads what stands in a group at the places `inner`. -/
def Inside.Visits (inside : Inside) (inner : InsidePlaces) : Prop :=
  ∀ cur, Traces (inner cur) cur (inside.read cur)

section Traces

variable {α β : Type} {l l' : List Cursor} {cur mid next : Cursor}
  {r : Except Fault (α × Cursor)} {r' : Except Fault (β × Cursor)}

theorem resume_eq_error {r : Reading Regex} {f : Fault} (h : cur.resume r = .error f) :
    r = .error f := by
  unfold Cursor.resume at h
  split at h
  · cases h
    rfl
  · cases h

/-- Something else is made of the value that was read. -/
theorem Traces.map (h : Traces l cur r) (g : α → β) (heq : r' = r.map (Prod.map g id)) :
    Traces l cur r' := by
  subst heq
  refine ⟨h.head, h.chain, ?_, ?_, ?_⟩
  · intro b next hr
    obtain ⟨⟨a, mid⟩, ha, hnext⟩ := map_eq_ok_iff.1 hr
    cases hnext
    exact h.last ha
  · intro f hr
    exact h.refused (map_eq_error_iff.1 hr)
  · intro c hc hgroup
    obtain ⟨f, hr, hblocked⟩ := h.blocked c hc hgroup
    exact ⟨f, map_eq_error_iff.2 hr, hblocked⟩

theorem Traces.exists_last (h : Traces l cur r) : ∃ c, l.getLast? = some c := by
  have hne : l ≠ [] := by
    rintro rfl
    cases h.head
  exact ⟨_, List.getLast?_eq_some_getLast hne⟩

/-- A reading goes on behind its last place. -/
theorem Traces.append (hhead : l.head? = some cur) (hchain : l.IsChain Step)
    (hstep : ∀ x ∈ l.getLast?, Step x next) (hs : next.rest <:+ cur.rest) (h : Traces l' next r) :
    Traces (l ++ l') cur r where
  head := by rw [List.head?_append, hhead, Option.some_or]
  chain := by
    refine List.isChain_append.2 ⟨hchain, h.chain, ?_⟩
    intro x hx y hy
    rw [h.head] at hy
    cases hy
    exact hstep x hx
  last := by
    intro a last hr
    rw [List.getLast?_append, h.last hr, Option.some_or]
  refused := fun f hr => (h.refused hr).mono (List.subset_append_right l l') hs
  blocked := by
    intro c hc
    obtain ⟨last, hlast⟩ := h.exists_last
    rw [List.getLast?_append, hlast, Option.some_or] at hc
    exact h.blocked c (hlast ▸ hc)

end Traces

/-! ## Pieces -/

variable {deeper inner} {cur next : Cursor} {e : Regex} {levels : Nat}

theorem noGroup_of_branchEnds (h : branchEnds cur.rest = true) : NoGroup cur := by
  intro text htext
  rw [htext] at h
  cases h

/-- Where no group begins there are no places inside. -/
theorem groupPlaces_of_noGroup (h : NoGroup cur) : groupPlaces deeper inner cur = [] := by
  unfold groupPlaces
  split
  · next text hr => exact absurd hr (h text)
  · rfl

theorem groupPlaces_of_open {inside : Inside} {text : List Char} {kind : GroupKind}
    {start : Cursor} (hr : cur.rest = '\\' :: '(' :: text)
    (hk : openGroup ('\\' :: '(' :: text) ⟨text, cur.groups⟩ = .ok (kind, start)) :
    groupPlaces (some inside) inner cur = inner start := by
  unfold groupPlaces
  rw [hr]
  simp only [hk]

theorem atom_eq_group {text : List Char} (hr : cur.rest = '\\' :: '(' :: text) :
    atom deeper cur = group deeper ⟨text, cur.groups⟩ := by
  rw [atom, hr]
  rfl

/-- A `^` at the start of a branch is no atom that could be refused. -/
theorem piece_of_atom_error (levels : Nat) (atStart : Bool) {f : Fault}
    (h : atom deeper cur = .error f) : piece deeper levels atStart cur = .error f := by
  unfold piece
  split
  · next hr =>
    rw [atom, hr] at h
    cases h
  · rw [h]

section

variable (hi : ∀ i ∈ deeper, i.Visits inner)

include hi

/-- The places inside a group come behind the one where it opens. -/
theorem chain_groupPlaces (cur : Cursor) : (cur :: groupPlaces deeper inner cur).IsChain Step := by
  unfold groupPlaces
  split
  · next inside text hr =>
    split
    · exact List.isChain_singleton _
    · next kind start hk =>
      have ht := hi inside rfl start
      refine List.isChain_cons.2 ⟨?_, ht.chain⟩
      intro y hy
      rw [ht.head] at hy
      cases hy
      exact .opens kind ⟨text, hr, hk⟩
  · exact List.isChain_singleton _

/-- A group that begins at the last place of an atom, if not at the atom itself then inside, is what
    the atom is refused for. -/
theorem blocked_atom (cur : Cursor) :
    ∀ c ∈ (cur :: groupPlaces deeper inner cur).getLast?, ¬ NoGroup c →
      ∃ f, atom deeper cur = .error f ∧ Blocked c f := by
  intro c hc hgroup
  by_cases hn : NoGroup cur
  · rw [groupPlaces_of_noGroup hn] at hc
    cases hc
    exact absurd hn hgroup
  · obtain ⟨text, hr⟩ := not_forall_not.1 hn
    rw [atom_eq_group hr]
    -- It does not open for want of a level or for its text, or it does and the place is inside.
    cases deeper with
    | none =>
      cases hc
      exact ⟨_, rfl, Or.inl rfl⟩
    | some inside =>
      cases hk : openGroup ('\\' :: '(' :: text) ⟨text, cur.groups⟩ with
      | error f =>
        simp only [groupPlaces, hr, hk] at hc
        cases hc
        refine ⟨f, ?_, Or.inr ⟨text, hr, hr ▸ hk⟩⟩
        simp only [group, hk]
      | ok r =>
        have ht := hi inside rfl r.2
        obtain ⟨last, hlast⟩ := ht.exists_last
        rw [groupPlaces_of_open hr hk, List.getLast?_cons, hlast] at hc
        cases hc
        obtain ⟨f, hread, hblocked⟩ := ht.blocked last hlast hgroup
        refine ⟨f, ?_, hblocked⟩
        simp only [group, hk, hread]

/-- Behind an atom the reader is behind its last place, with the same numbers. -/
theorem step_of_atom (h : atom deeper cur = .ok (e, next)) :
    ∀ c ∈ (cur :: groupPlaces deeper inner cur).getLast?,
      NoGroup c ∧ next.rest <:+ c.rest ∧ next.groups = c.groups := by
  intro c hc
  have hn : NoGroup c := by
    by_contra hgroup
    obtain ⟨f, herror, -⟩ := blocked_atom hi cur c hc hgroup
    cases herror.symm.trans h
  refine ⟨hn, ?_⟩
  by_cases hcur : NoGroup cur
  · rw [groupPlaces_of_noGroup hcur] at hc
    cases hc
    exact ⟨(atom_advances h).1, (isLeaf_atom h hn).2⟩
  · obtain ⟨text, hr⟩ := not_forall_not.1 hcur
    rw [atom_eq_group hr] at h
    simp only [group] at h
    split at h
    · cases h
    · next inside =>
      split at h
      · cases h
      · next kind start hk =>
        split at h
        · cases h
        · next rest' groups he =>
          cases h
          have hlast := (hi inside rfl start).last he
          rw [groupPlaces_of_open hr hk, List.getLast?_cons, hlast] at hc
          cases hc
          exact ⟨(List.suffix_cons _ _).trans (List.suffix_cons _ _), rfl⟩
        · cases h

/-- From the last place of a piece one step goes to the next piece. -/
theorem step_of_piece {atStart : Bool} (h : piece deeper levels atStart cur = .ok (e, next)) :
    ∀ c ∈ (cur :: groupPlaces deeper inner cur).getLast?, Step c next := by
  intro c hc
  unfold piece at h
  split at h
  · next rest hr =>
    cases h
    have hn : NoGroup cur := by
      intro text htext
      rw [htext] at hr
      cases hr
    rw [groupPlaces_of_noGroup hn] at hc
    cases hc
    exact .goesOn hn (hr ▸ List.suffix_cons _ _) rfl
  · split at h
    · cases h
    · next ha =>
      obtain ⟨hn, hs, hg⟩ := step_of_atom hi ha c hc
      exact .goesOn hn ((quantified_suffix (resume_ok h)).trans hs) ((groups_of_resume h).trans hg)

/-- A group is refused for its opening, inside, or because it does not close. -/
theorem refused_group {text : List Char} {f : Fault} (hr : cur.rest = '\\' :: '(' :: text)
    (h : group deeper ⟨text, cur.groups⟩ = .error f) :
    Refused (cur :: groupPlaces deeper inner cur) cur.rest f := by
  have htext : text <:+ cur.rest :=
    hr ▸ (List.suffix_cons '(' text).trans (List.suffix_cons '\\' _)
  simp only [group] at h
  rw [← hr] at h
  split at h
  · cases h
    exact .textual (Fault.isTextual_self rfl htext)
  · next inside =>
    split at h
    · next hk =>
      cases h
      rcases openGroup_eq_error hk with hread | ⟨rest, hread, hfull, rfl⟩
      · exact .textual (GroupKind.read_eq_error htext hread)
      · exact .overflow List.mem_cons_self ⟨text, rest, hr, hread⟩ hfull
          ⟨List.suffix_refl _, (GroupKind.read_suffix hread).trans htext⟩ rfl rfl
    · next kind start hk =>
      have hs := (openGroup_suffix hk).trans htext
      split at h
      · next he =>
        cases h
        rw [groupPlaces_of_open hr (hr ▸ hk)]
        exact ((hi inside rfl start).refused he).mono (List.subset_cons_self _ _) hs
      · cases h
      · next he =>
        cases h
        exact .textual (Fault.isTextual_self rfl ((inside.read_suffix he).trans hs))

theorem refused_atom {f : Fault} (h : atom deeper cur = .error f) :
    Refused (cur :: groupPlaces deeper inner cur) cur.rest f := by
  by_cases hgroup : ∃ text, cur.rest = '\\' :: '(' :: text
  · obtain ⟨text, hr⟩ := hgroup
    exact refused_group hi hr (atom_eq_group hr ▸ h)
  · unfold atom at h
    split at h
    · cases h
      exact .textual ⟨⟨List.nil_suffix, List.suffix_refl _⟩, rfl⟩
    · next text hr => exact absurd ⟨text, hr⟩ hgroup
    · next hr =>
      refine (refused_escape hr (resume_eq_error h)).mono ?_ (List.suffix_refl _)
      exact List.cons_subset_cons _ (List.nil_subset _)
    · next hr =>
      rw [hr]
      exact .textual (BracketGrammar.read_eq_error refusesTextually_brackets
        spellsMembers_brackets (resume_eq_error h))
    · cases h
    · cases h
    · cases h

theorem refused_piece {atStart : Bool} {f : Fault}
    (h : piece deeper levels atStart cur = .error f) :
    Refused (cur :: groupPlaces deeper inner cur) cur.rest f := by
  unfold piece at h
  split at h
  · cases h
  · split at h
    · next ha =>
      cases h
      exact refused_atom hi ha
    · next ha =>
      exact (refused_quantified _ (resume_eq_error h)).mono (List.Subset.refl _)
        (atom_advances ha).1

theorem blocked_piece (levels : Nat) (atStart : Bool) (cur : Cursor) :
    ∀ c ∈ (cur :: groupPlaces deeper inner cur).getLast?, ¬ NoGroup c →
      ∃ f, piece deeper levels atStart cur = .error f ∧ Blocked c f := by
  intro c hc hgroup
  obtain ⟨f, herror, hblocked⟩ := blocked_atom hi cur c hc hgroup
  exact ⟨f, piece_of_atom_error levels atStart herror, hblocked⟩

/-! ## Branches and expressions -/

theorem traces_pieces (levels : Nat) (atStart : Bool) (cur : Cursor) :
    Traces (piecesPlaces deeper inner levels atStart cur) cur
      (pieces deeper levels atStart cur) := by
  induction hn : cur.rest.length using Nat.strongRecOn generalizing cur atStart with
  | _ n ih =>
    unfold piecesPlaces
    rw [pieces_eq]
    split
    · next hends =>
      refine ⟨rfl, List.isChain_singleton _, ?_, nofun, ?_⟩
      · rintro _ _ ⟨⟩
        rfl
      · rintro c ⟨⟩ hgroup
        exact absurd (noGroup_of_branchEnds hends) hgroup
    · split
      · next hp =>
        rw [hp]
        refine ⟨rfl, chain_groupPlaces hi cur, nofun, ?_, ?_⟩
        · rintro _ ⟨⟩
          exact refused_piece hi hp
        · intro c hc hgroup
          obtain ⟨f, herror, hblocked⟩ := blocked_piece hi levels atStart cur c hc hgroup
          cases herror.symm.trans hp
          exact ⟨_, rfl, hblocked⟩
      · next e next hp =>
        simp only [hp]
        -- The places of a piece, and behind them those of the others.
        have a := piece_advances hp
        refine .append rfl (chain_groupPlaces hi cur) (step_of_piece hi hp) a.1
          ((ih _ (hn ▸ a.2) false next rfl).map (e :: ·) ?_)
        cases pieces deeper levels false next <;> rfl

theorem traces_branch (levels : Nat) (cur : Cursor) :
    Traces (piecesPlaces deeper inner levels true cur) cur (branch deeper levels cur) := by
  refine (traces_pieces hi levels true cur).map Regex.seq ?_
  unfold branch
  cases pieces deeper levels true cur <;> rfl

theorem traces_branches (levels : Nat) (cur : Cursor) :
    Traces (branchesPlaces deeper inner levels cur) cur (branches deeper levels cur) := by
  induction hn : cur.rest.length using Nat.strongRecOn generalizing cur with
  | _ n ih =>
    have hb := traces_branch hi levels cur
    unfold branchesPlaces
    rw [branches_eq]
    split
    · next e rest groups heq =>
      simp only [heq]
      have hbar : rest <:+ '\\' :: '|' :: rest :=
        (List.suffix_cons _ _).trans (List.suffix_cons _ _)
      refine .append hb.head hb.chain ?_ (hbar.trans (branch_suffix heq))
        ((ih _ (hn ▸ lt_of_branch_bar heq) ⟨rest, groups⟩ rfl).map (e :: ·) ?_)
      · -- The bar stands at the last place of the branch.
        intro x hx
        rw [hb.last heq] at hx
        cases hx
        exact .goesOn (noGroup_of_branchEnds rfl) hbar rfl
      · cases branches deeper levels ⟨rest, groups⟩ <;> rfl
    -- Without a bar behind it the branch is the last one, refused or not.
    · next hne =>
      refine ⟨hb.head, hb.chain, ?_, ?_, ?_⟩
      · intro l next h
        split at h
        · cases h
        · next heq => exact absurd heq (hne _ _ _)
        · next heq =>
          cases h
          exact hb.last heq
      · intro f h
        split at h
        · next heq =>
          cases h
          exact hb.refused heq
        · next heq => exact absurd heq (hne _ _ _)
        · cases h
      · intro c hc hgroup
        obtain ⟨f, herror, hblocked⟩ := hb.blocked c hc hgroup
        refine ⟨f, ?_, hblocked⟩
        rw [herror]

theorem visits_inside (levels : Nat) :
    (inside deeper levels).Visits (branchesPlaces deeper inner levels) := by
  intro cur
  refine (traces_branches hi levels cur).map Regex.alt ?_
  show alternation deeper levels cur = _
  unfold alternation
  cases branches deeper levels cur <;> rfl

end

/-- At every level the places are those of the reader. -/
theorem visits_expression (levels : Nat) :
    (expression levels).Visits (expressionPlaces levels) := by
  induction levels with
  | zero =>
    refine visits_inside ?_ 0
    rintro _ ⟨⟩
  | succ levels ih =>
    refine visits_inside ?_ (levels + 1)
    rintro _ ⟨⟩
    exact ih

theorem traces_places (pattern : List Char) :
    Traces (places pattern) ⟨pattern, 0⟩ ((expression maxDepth).read ⟨pattern, 0⟩) :=
  visits_expression maxDepth _

/-- A pattern is refused at one of its places. -/
theorem exists_refused_of_parse {pattern : List Char} {err : ParseError}
    (h : parse pattern = .error err) :
    ∃ f, Refused (places pattern) pattern f ∧ err = f.report pattern := by
  unfold parse at h
  split at h
  · next hr =>
    cases h
    exact ⟨_, (traces_places pattern).refused hr, rfl⟩
  · cases h
  · next hr =>
    cases h
    have hrest := (expression maxDepth).read_suffix hr
    exact ⟨_, .textual ⟨⟨hrest, List.suffix_refl _⟩, rfl⟩, rfl⟩

end RegexDialects.Pattern.Emacs
