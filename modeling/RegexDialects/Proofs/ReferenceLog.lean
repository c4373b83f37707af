import RegexDialects.Proofs.EmacsAssembly
import RegexDialects.Proofs.Links

/-!
# What references of Emacs patterns can mean

The reader of Emacs patterns takes a reference to group `n` if the highest group number so far is
not below `n`. That number and the groups of the tree part ways for two reasons: a group with a
number of its own may leave out numbers, and a quantifier that allows no occurrence drops the groups
in front of it.

The reader is followed by a log of these things (`patternLog`), one log for each function of the
reader. The invariant of a stretch of reading (`Accounts`) is kept by one stretch behind another, by
a group around a stretch, and by a quantifier behind it; so it holds of a piece, of a run of pieces,
and by induction on the levels of a pattern.
-/

set_option autoImplicit false

namespace RegexDialects.Pattern.Emacs

open Regex

/-! ## Logs -/

/-- What happens to the numbers of groups while a pattern is read. -/
inductive Entry where
  /-- A group opens, and its number leaves out so many others before it. -/
  | opened (leftOut : Nat)
  /-- A reference to group `n` is taken. -/
  | referred (n : Nat)
  /-- The quantifiers of a piece drop so many of its groups. -/
  | dropped (groups : Nat)
  deriving DecidableEq, Repr

/-- The groups that an entry opens. -/
def Entry.opens : Entry → Nat
  | opened _ => 1
  | _ => 0

/-- The numbers that an entry leaves out. -/
def Entry.leavesOut : Entry → Nat
  | opened n => n
  | _ => 0

/-- The groups that an entry drops. -/
def Entry.drops : Entry → Nat
  | dropped n => n
  | _ => 0

/-- What the entries of a log come to. -/
def total (count : Entry → Nat) : List Entry → Nat
  | [] => 0
  | x :: log => count x + total count log

/-- A log for what stands inside a group. -/
abbrev InsideLog := Cursor → List Entry

/-- The log of the opening of a group, when `groups` is the highest number so far. -/
def GroupKind.log (groups : Nat) : GroupKind → List Entry
  | implicit => [.opened 0]
  | numbered n => [.opened (n - groups - 1)]
  | shy => []

/-- The log of `group`. -/
def groupLog (deeper : Option Inside) (inner : InsideLog) (cur : Cursor) : List Entry :=
  match deeper, openGroup ('\\' :: '(' :: cur.rest) cur with
  | some _, .ok (kind, start) => kind.log cur.groups.highest ++ inner start
  | _, _ => []

/-- The log of a tree that is no group: a reference is one entry. -/
def leafLog : Regex → List Entry
  | .backref n => [.referred n]
  | _ => []

/-- The log of `atom`. -/
def atomLog (deeper : Option Inside) (inner : InsideLog) (cur : Cursor) : List Entry :=
  match cur.rest with
  | '\\' :: '(' :: rest => groupLog deeper inner { cur with rest }
  | _ =>
    match atom deeper cur with
    | .error _ => []
    | .ok (e, _) => leafLog e

/-- How many groups of `e` are not in `e'`. -/
def dropLog (e e' : Regex) : List Entry :=
  [.dropped (e.links.countP isGroup - e'.links.countP isGroup)]

/-- The log of `piece`. -/
def pieceLog (deeper : Option Inside) (inner : InsideLog) (levels : Nat) (atStart : Bool)
    (cur : Cursor) : List Entry :=
  match atStart, cur.rest with
  | true, '^' :: _ => []
  | _, _ =>
    match atom deeper cur with
    | .error _ => []
    | .ok (e, next) =>
      match quantified quantifiers (levels - e.repeatDepth) e next.rest with
      | .error _ => []
      | .ok (e', _) => atomLog deeper inner cur ++ dropLog e e'

/-- The log of `pieces`. -/
def piecesLog (deeper : Option Inside) (inner : InsideLog) (levels : Nat) (atStart : Bool)
    (cur : Cursor) : List Entry :=
  if branchEnds cur.rest then []
  else
    match h : piece deeper levels atStart cur with
    | .error _ => []
    | .ok (_, next) =>
      have : next.rest.length < cur.rest.length := (piece_advances h).2
      pieceLog deeper inner levels atStart cur ++ piecesLog deeper inner levels false next
termination_by cur.rest.length

theorem lt_of_branch_bar {deeper : Option Inside} {levels : Nat} {cur : Cursor} {e : Regex}
    {rest : List Char} {groups : Numbering}
    (h : branch deeper levels cur = .ok (e, ⟨'\\' :: '|' :: rest, groups⟩)) :
    rest.length < cur.rest.length := by
  have hle := (branch_suffix h).length_le
  simp only [List.length_cons] at hle
  omega

/-- The log of `branches`. -/
def branchesLog (deeper : Option Inside) (inner : InsideLog) (levels : Nat) (cur : Cursor) :
    List Entry :=
  match h : branch deeper levels cur with
  | .ok (_, ⟨'\\' :: '|' :: rest, groups⟩) =>
    have : rest.length < cur.rest.length := lt_of_branch_bar h
    piecesLog deeper inner levels true cur ++ branchesLog deeper inner levels ⟨rest, groups⟩
  | _ => piecesLog deeper inner levels true cur
termination_by cur.rest.length

/-- The log of `expression`. -/
def expressionLog : Nat → InsideLog
  | 0 => branchesLog none (fun _ => []) 0
  | levels + 1 => branchesLog (some (expression levels)) (expressionLog levels) (levels + 1)

/-- What happens to the numbers of groups while a pattern is read. -/
def patternLog (pattern : List Char) : List Entry :=
  expressionLog maxDepth ⟨pattern, 0⟩

/-! ## The invariant -/

theorem total_append (count : Entry → Nat) (log log' : List Entry) :
    total count (log ++ log') = total count log + total count log' := by
  induction log with
  | nil => simp [total]
  | cons x log ih => simp only [List.cons_append, total, ih, Nat.add_assoc]

theorem total_cons (count : Entry → Nat) (x : Entry) (log : List Entry) :
    total count (x :: log) = count x + total count log := rfl

theorem total_nil (count : Entry → Nat) : total count [] = 0 := rfl

/-- What a log says of a stretch of reading with the links `l`, over which the highest group number
    went from `first` to `last`: the groups are those that opened, less those that were dropped;
    the highest number went up by no more than what opened and what was left out; and every
    reference among the links was taken where the same was true of all that is in front of it. -/
structure Accounts (log : List Entry) (first last : Nat) (l : List Regex) : Prop where
  balance : l.countP isGroup + total Entry.drops log = total Entry.opens log
  last_le : last ≤ first + total Entry.opens log + total Entry.leavesOut log
  referred : ∀ {before after : List Regex} {n : Nat}, l = before ++ .backref n :: after →
    ∃ log₁ log₂, log = log₁ ++ .referred n :: log₂ ∧
      before.countP isGroup + total Entry.drops log₁ = total Entry.opens log₁ ∧
      n ≤ first + total Entry.opens log₁ + total Entry.leavesOut log₁

namespace Accounts

variable {log log' : List Entry} {n m k : Nat} {l l' : List Regex}

theorem nil (n : Nat) : Accounts [] n n [] where
  balance := rfl
  last_le := Nat.le_refl n
  referred := by
    intro before after k h
    exact absurd h.symm (by simp)

/-- A reference that is taken. -/
theorem reference (h : k ≤ n) : Accounts [.referred k] n n [.backref k] where
  balance := rfl
  last_le := Nat.le_refl n
  referred := by
    intro before after j hl
    rcases List.cons_eq_append_iff.1 hl with ⟨rfl, hk⟩ | ⟨t, -, ht⟩
    · cases hk
      exact ⟨[], [], rfl, rfl, h⟩
    · exact absurd ht.symm (by simp)

/-- Stretches one behind the other. -/
theorem append (h : Accounts log n m l) (h' : Accounts log' m k l') :
    Accounts (log ++ log') n k (l ++ l') where
  balance := by
    have hb := h.balance
    have hb' := h'.balance
    rw [List.countP_append, total_append, total_append]
    omega
  last_le := by
    have hm := h.last_le
    have hk := h'.last_le
    rw [total_append, total_append]
    omega
  referred := by
    intro before after j hl
    rcases List.append_eq_append_iff.1 hl with ⟨t, rfl, ht⟩ | ⟨t, rfl, ht⟩
    · -- The reference stands in the second stretch.
      obtain ⟨log₁, log₂, rfl, hgroups, hj⟩ := h'.referred ht
      refine ⟨log ++ log₁, log₂, (List.append_assoc _ _ _).symm, ?_, ?_⟩
      · have hb := h.balance
        rw [List.countP_append, total_append, total_append]
        omega
      · have hm := h.last_le
        rw [total_append, total_append]
        omega
    · cases t with
      | nil =>
        have hfirst : l' = [] ++ .backref _ :: _ := ht.symm
        obtain ⟨log₁, log₂, rfl, hgroups, hj⟩ := h'.referred hfirst
        refine ⟨log ++ log₁, log₂, (List.append_assoc _ _ _).symm, ?_, ?_⟩
        · have hb := h.balance
          rw [List.append_nil] at hb
          rw [total_append, total_append]
          rw [List.countP_nil] at hgroups
          omega
        · have hm := h.last_le
          rw [total_append, total_append]
          omega
      | cons x t =>
        cases ht
        obtain ⟨log₁, log₂, rfl, hgroups, hj⟩ := h.referred rfl
        exact ⟨log₁, log₂ ++ log', by simp, hgroups, hj⟩

/-- A group around a stretch opens before it. -/
theorem group {e : Regex} {leftOut : Nat} (h : Accounts log m k l) (hm : m ≤ n + 1 + leftOut) :
    Accounts (.opened leftOut :: log) n k (.group e :: l) where
  balance := by
    have hb := h.balance
    rw [List.countP_cons_of_pos rfl]
    simp only [total_cons, Entry.drops, Entry.opens]
    omega
  last_le := by
    have hk := h.last_le
    simp only [total_cons, Entry.opens, Entry.leavesOut]
    omega
  referred := by
    intro before after j hl
    rcases List.cons_eq_append_iff.1 hl with ⟨-, hj⟩ | ⟨t, rfl, ht⟩
    · cases hj
    · obtain ⟨log₁, log₂, rfl, hgroups, hj⟩ := h.referred ht
      refine ⟨.opened leftOut :: log₁, log₂, rfl, ?_, ?_⟩
      · rw [List.countP_cons_of_pos rfl]
        simp only [total_cons, Entry.drops, Entry.opens]
        omega
      · simp only [total_cons, Entry.opens, Entry.leavesOut]
        omega

/-- Quantifiers behind a stretch keep its links, or drop all of them. -/
theorem quantified {e e' : Regex} (h : Accounts log n m e.links)
    (hl : e'.links = e.links ∨ e'.links = []) : Accounts (log ++ dropLog e e') n m e'.links where
  balance := by
    have hb := h.balance
    simp only [total_append, dropLog, total_cons, total_nil, Entry.drops, Entry.opens]
    rcases hl with hl | hl
    · rw [hl]
      omega
    · rw [hl, List.countP_nil]
      omega
  last_le := by
    have hm := h.last_le
    simp only [total_append, dropLog, total_cons, total_nil, Entry.opens, Entry.leavesOut]
    omega
  referred := by
    intro before after j hj
    rcases hl with hl | hl
    · obtain ⟨log₁, log₂, rfl, hgroups, hle⟩ := h.referred (hl ▸ hj)
      exact ⟨log₁, log₂ ++ dropLog e e', by simp, hgroups, hle⟩
    · rw [hl] at hj
      exact absurd hj.symm (by simp)

end Accounts

/-! ## Groups -/

/-- A group of any sort around a stretch that starts with the numbers behind its opening. -/
theorem accounts_wrap {kind : GroupKind} {groups start : Numbering} {log : List Entry} {last : Nat}
    {e : Regex} (hnext : groups.next? kind = some start)
    (h : Accounts log start.highest last e.links) :
    Accounts (kind.log groups.highest ++ log) groups.highest last (kind.wrap e).links := by
  cases kind with
  | implicit =>
    simp only [Numbering.next?] at hnext
    split at hnext
    · cases hnext
    · cases hnext
      exact h.group (Nat.le_refl _)
  | numbered n =>
    cases hnext
    have hstart : max groups.highest n ≤ groups.highest + 1 + (n - groups.highest - 1) := by omega
    exact h.group hstart
  | shy =>
    cases hnext
    exact h

/-- A log tells what happens to the numbers of groups while a reader reads. -/
def Inside.IsLogged (inside : Inside) (log : InsideLog) : Prop :=
  ∀ ⦃cur e next⦄, inside.read cur = .ok (e, next) →
    Accounts (log cur) cur.groups.highest next.groups.highest e.links

section Levels

variable {deeper : Option Inside} {inner : InsideLog}

theorem accounts_group (hi : ∀ i ∈ deeper, i.IsLogged inner) {cur next : Cursor} {e : Regex}
    (h : group deeper cur = .ok (e, next)) :
    Accounts (groupLog deeper inner cur) cur.groups.highest next.groups.highest e.links := by
  simp only [group] at h
  split at h
  · cases h
  · next inside =>
    split at h
    · cases h
    · next kind start hk =>
      split at h
      · cases h
      · next he =>
        cases h
        have hlog : groupLog (some inside) inner cur =
            kind.log cur.groups.highest ++ inner start := by
          simp only [groupLog, hk]
        rw [hlog]
        have hacc := hi inside rfl he
        exact accounts_wrap (openGroup_eq_ok_iff.1 hk).2 hacc
      · cases h

/-! ## Leaves -/

/-- A tree that is no group has one link at most: a reference to a group that may be there. -/
def IsLeaf (groups : Nat) (e : Regex) : Prop :=
  e.links = [] ∨ ∃ n, e = .backref n ∧ n ≤ groups

theorem IsLeaf.accounts {groups : Nat} {e : Regex} (h : IsLeaf groups e) :
    Accounts (leafLog e) groups groups e.links := by
  rcases h with h | ⟨n, rfl, hn⟩
  · have hlog : leafLog e = [] := by
      cases e with
      | backref n => cases h
      | _ => rfl
    rw [hlog, h]
    exact .nil _
  · exact .reference hn

theorem isLeaf_signed {groups : Nat} {e : Regex} (h : e.links = []) (negated : Bool) :
    IsLeaf groups (signed negated e) := by
  cases negated with
  | false => exact Or.inl h
  | true => exact Or.inl h

theorem isLeaf_escape {groups : Nat} {text rest : List Char} {e : Regex}
    (h : escape groups text = .ok (e, rest)) : IsLeaf groups e := by
  simp only [escape] at h
  split at h
  · cases h
  · split at h
    · cases h
      exact Or.inl rfl
    · split at h
      · unfold symbolEdge at h
        split at h
        · cases h
          exact Or.inl rfl
        · cases h
          exact Or.inl rfl
        · cases h
      · split at h
        · unfold syntaxCode at h
          split at h
          · cases h
          · split at h
            · cases h
              exact isLeaf_signed rfl _
            · cases h
        · split at h
          · unfold categoryCode at h
            split at h
            · cases h
            · split at h
              · cases h
                exact isLeaf_signed rfl _
              · cases h
          · split at h
            · cases h
            · split at h
              · split at h
                · cases h
                · next hle =>
                  cases h
                  exact Or.inr ⟨_, rfl, Nat.le_of_not_lt hle⟩
              · cases h
                exact Or.inl rfl

theorem links_brackets {text rest : List Char} {e : Regex}
    (h : brackets.read text = .ok (e, rest)) : e.links = [] := by
  obtain ⟨negated, ms, -, -, ht⟩ := exists_bracketTree spellsMembers_brackets.spells h
  exact links_of_marks (marks_bracketTree ht)

/-! ## Atoms and pieces -/

theorem groups_of_resume {cur next : Cursor} {r : Reading Regex} {e : Regex}
    (h : cur.resume r = .ok (e, next)) : next.groups = cur.groups := by
  unfold Cursor.resume at h
  split at h
  · cases h
  · cases h
    rfl

/-- An atom that is no group opens none, and has one link at most. -/
theorem isLeaf_atom {cur next : Cursor} {e : Regex} (h : atom deeper cur = .ok (e, next))
    (hne : ∀ rest, cur.rest ≠ '\\' :: '(' :: rest) :
    IsLeaf cur.groups.highest e ∧ next.groups = cur.groups := by
  unfold atom at h
  split at h
  · cases h
  · next rest hr => exact absurd hr (hne rest)
  · have he := resume_ok h
    exact ⟨isLeaf_escape he, groups_of_resume h⟩
  · have he := resume_ok h
    exact ⟨Or.inl (links_brackets he), groups_of_resume h⟩
  · cases h
    exact ⟨Or.inl rfl, rfl⟩
  · cases h
    refine ⟨Or.inl ?_, rfl⟩
    split <;> rfl
  · cases h
    exact ⟨Or.inl rfl, rfl⟩

theorem accounts_atom (hi : ∀ i ∈ deeper, i.IsLogged inner) {cur next : Cursor} {e : Regex}
    (h : atom deeper cur = .ok (e, next)) :
    Accounts (atomLog deeper inner cur) cur.groups.highest next.groups.highest e.links := by
  unfold atomLog
  split
  · next rest hr =>
    have hgroup : group deeper { cur with rest } = .ok (e, next) := by
      rw [← h, atom, hr]
      rfl
    exact accounts_group hi hgroup
  · next hne =>
    obtain ⟨hleaf, hgroups⟩ := isLeaf_atom h fun rest hr => hne rest hr
    simp only [h]
    rw [hgroups]
    exact hleaf.accounts

/-- Quantifiers keep the links of what is in front of them, or drop all of them. -/
theorem links_quantified {budget : Nat} {e e' : Regex} {text rest : List Char}
    (h : quantified quantifiers budget e text = .ok (e', rest)) :
    e'.links = e.links ∨ e'.links = [] := by
  refine keeps_quantified (P := fun x => x.links = e.links ∨ x.links = []) ?_ (Or.inl rfl) h
  intro text rest q x x' hx _ hr
  rcases links_repeated hr with h' | h'
  · rw [h']
    exact hx
  · exact Or.inr h'

theorem pieceLog_of_caret {levels : Nat} {cur : Cursor} {rest : List Char}
    (hr : cur.rest = '^' :: rest) : pieceLog deeper inner levels true cur = [] := by
  simp only [pieceLog, hr]

theorem pieceLog_of_atom {levels : Nat} {atStart : Bool} {cur next : Cursor} {e e' : Regex}
    {rest : List Char} (hn : ∀ text, atStart = true → cur.rest = '^' :: text → False)
    (ha : atom deeper cur = .ok (e, next))
    (hq : quantified quantifiers (levels - e.repeatDepth) e next.rest = .ok (e', rest)) :
    pieceLog deeper inner levels atStart cur = atomLog deeper inner cur ++ dropLog e e' := by
  unfold pieceLog
  split
  · next hr => exact (hn _ rfl hr).elim
  · simp only [ha, hq]

theorem accounts_piece (hi : ∀ i ∈ deeper, i.IsLogged inner) {levels : Nat} {atStart : Bool}
    {cur next : Cursor} {e : Regex} (h : piece deeper levels atStart cur = .ok (e, next)) :
    Accounts (pieceLog deeper inner levels atStart cur) cur.groups.highest next.groups.highest
      e.links := by
  unfold piece at h
  split at h
  · next hr =>
    cases h
    rw [pieceLog_of_caret hr]
    exact .nil _
  · next hn =>
    split at h
    · cases h
    · next ha =>
      have hq := resume_ok h
      rw [pieceLog_of_atom hn ha hq, groups_of_resume h]
      exact (accounts_atom hi ha).quantified (links_quantified hq)

/-! ## Branches and expressions -/

theorem piecesLog_of_piece {levels : Nat} {atStart : Bool} {cur next : Cursor} {e : Regex}
    (hn : ¬ branchEnds cur.rest = true) (h : piece deeper levels atStart cur = .ok (e, next)) :
    piecesLog deeper inner levels atStart cur =
      pieceLog deeper inner levels atStart cur ++ piecesLog deeper inner levels false next := by
  conv_lhs => unfold piecesLog
  rw [if_neg hn]
  split
  · next heq =>
    rw [h] at heq
    cases heq
  · next heq =>
    rw [h] at heq
    cases heq
    rfl

theorem accounts_pieces (hi : ∀ i ∈ deeper, i.IsLogged inner) {levels : Nat} {atStart : Bool}
    {cur next : Cursor} {l : List Regex}
    (h : pieces deeper levels atStart cur = .ok (l, next)) :
    Accounts (piecesLog deeper inner levels atStart cur) cur.groups.highest next.groups.highest
      (l.flatMap links) := by
  induction hn : cur.rest.length using Nat.strongRecOn generalizing cur atStart l with
  | _ n ih =>
    unfold pieces at h
    split at h
    · next hb =>
      cases h
      unfold piecesLog
      rw [if_pos hb]
      exact .nil _
    · next hb =>
      split at h
      · cases h
      · next hp =>
        simp only at h
        split at h
        · cases h
        · next hl =>
          cases h
          rw [piecesLog_of_piece hb hp, List.flatMap_cons]
          exact (accounts_piece hi hp).append (ih _ (hn ▸ (piece_advances hp).2) hl rfl)

theorem accounts_branch (hi : ∀ i ∈ deeper, i.IsLogged inner) {levels : Nat}
    {cur next : Cursor} {e : Regex} (h : branch deeper levels cur = .ok (e, next)) :
    Accounts (piecesLog deeper inner levels true cur) cur.groups.highest next.groups.highest
      e.links := by
  unfold branch at h
  split at h
  · cases h
  · next hl =>
    cases h
    rw [links_seq]
    exact accounts_pieces hi hl

theorem branchesLog_of_bar {levels : Nat} {groups : Numbering} {cur : Cursor} {e : Regex}
    {rest : List Char} (h : branch deeper levels cur = .ok (e, ⟨'\\' :: '|' :: rest, groups⟩)) :
    branchesLog deeper inner levels cur =
      piecesLog deeper inner levels true cur ++
        branchesLog deeper inner levels ⟨rest, groups⟩ := by
  conv_lhs => unfold branchesLog
  split
  · next heq =>
    rw [h] at heq
    cases heq
    rfl
  · next hne => exact absurd h (hne _ _ _)

theorem branchesLog_of_not_bar {levels : Nat} {cur next : Cursor} {e : Regex}
    (h : branch deeper levels cur = .ok (e, next))
    (hbar : ∀ rest, next.rest ≠ '\\' :: '|' :: rest) :
    branchesLog deeper inner levels cur = piecesLog deeper inner levels true cur := by
  unfold branchesLog
  split
  · next heq =>
    rw [h] at heq
    cases heq
    exact absurd rfl (hbar _)
  · rfl

theorem accounts_branches (hi : ∀ i ∈ deeper, i.IsLogged inner) {levels : Nat}
    {cur next : Cursor} {l : List Regex} (h : branches deeper levels cur = .ok (l, next)) :
    Accounts (branchesLog deeper inner levels cur) cur.groups.highest next.groups.highest
      (l.flatMap links) := by
  induction hn : cur.rest.length using Nat.strongRecOn generalizing cur l with
  | _ n ih =>
    unfold branches at h
    split at h
    · cases h
    · next e rest groups hb =>
      simp only at h
      split at h
      · cases h
      · next hl =>
        cases h
        have s := (branch_suffix hb).length_le
        simp only [List.length_cons] at s
        rw [branchesLog_of_bar hb, List.flatMap_cons]
        exact (accounts_branch hi hb).append (ih _ (by simp only; omega) hl rfl)
    · next hbar hb =>
      cases h
      rw [branchesLog_of_not_bar hb, List.flatMap_singleton]
      · exact accounts_branch hi hb
      · intro rest hr
        exact hbar _ _ (by rw [← hr])

theorem isLogged_inside (hi : ∀ i ∈ deeper, i.IsLogged inner) (levels : Nat) :
    (inside deeper levels).IsLogged (branchesLog deeper inner levels) := by
  intro cur e next h
  change alternation deeper levels cur = _ at h
  unfold alternation at h
  split at h
  · cases h
  · next hl =>
    cases h
    rw [links_alt]
    exact accounts_branches hi hl

end Levels

theorem isLogged_expression (levels : Nat) :
    (expression levels).IsLogged (expressionLog levels) := by
  induction levels with
  | zero =>
    refine isLogged_inside ?_ 0
    intro i hi
    cases hi
  | succ levels ih =>
    refine isLogged_inside ?_ (levels + 1)
    intro i hi
    cases hi
    exact ih

end RegexDialects.Pattern.Emacs
