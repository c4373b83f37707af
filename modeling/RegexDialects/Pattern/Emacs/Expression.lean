import RegexDialects.Pattern.Emacs.Bracket
import RegexDialects.Pattern.Emacs.Escape
import RegexDialects.Pattern.Emacs.GroupKind
import RegexDialects.Pattern.Emacs.Quantifier

/-!
# Reading Emacs patterns

```
expression ::= branch ( '\|' branch )*
branch     ::= '^'? piece*
piece      ::= atom quantifier*
atom       ::= character | bracket | escape | '\(' ( '?:' | '?' number ':' )? expression '\)'
```

Most operators have a backslash in front. Three sorts of characters are operators only in certain
places: `^` at the start of a branch, `$` at its end, and `*`, `+`, `?` anywhere but at its start.

Groups nest to a limited depth, so an expression is read by recursion on the number of levels that
are left: `expression levels` reads what stands inside a group with the help of
`expression (levels - 1)` (`Inside`).
-/

set_option autoImplicit false

namespace RegexDialects.Pattern.Emacs

/-- Where a reader is: the rest of the pattern, and the numbers of the groups so far. -/
structure Cursor where
  rest : List Char
  groups : Numbering
  deriving DecidableEq, Repr

/-! ## Groups -/

/-- A reader for what stands inside a group. -/
structure Inside where
  read : Cursor → Except Fault (Regex × Cursor)
  read_suffix : ∀ {cur cur' e}, read cur = .ok (e, cur') → cur'.rest <:+ cur.rest

/-- Opens the group `whole`, at the place behind `\(`. -/
def openGroup (whole : List Char) (cur : Cursor) : Except Fault (GroupKind × Cursor) :=
  match GroupKind.read whole cur.rest with
  | .error f => .error f
  | .ok (kind, rest) =>
    match cur.groups.next? kind with
    | none => .error ⟨.overflow, whole, rest⟩
    | some groups => .ok (kind, ⟨rest, groups⟩)

/-- Reads a group, at the place behind `\(`; without a `deeper` reader no level is left for it. -/
def group (deeper : Option Inside) (cur : Cursor) : Except Fault (Regex × Cursor) :=
  let whole := '\\' :: '(' :: cur.rest
  match deeper with
  | none => .error ⟨.tooDeep, whole, cur.rest⟩
  | some inside =>
    match openGroup whole cur with
    | .error f => .error f
    | .ok (kind, start) =>
      match inside.read start with
      | .error f => .error f
      | .ok (e, ⟨'\\' :: ')' :: rest, groups⟩) => .ok (kind.wrap e, ⟨rest, groups⟩)
      | .ok (_, ⟨rest, _⟩) => .error ⟨.unmatchedParen, whole, rest⟩

theorem openGroup_eq_ok_iff {whole : List Char} {cur cur' : Cursor} {kind : GroupKind} :
    openGroup whole cur = .ok (kind, cur') ↔
      GroupKind.read whole cur.rest = .ok (kind, cur'.rest) ∧
        cur.groups.next? kind = some cur'.groups := by
  obtain ⟨rest', groups'⟩ := cur'
  rcases hread : GroupKind.read whole cur.rest with f | ⟨kind', rest⟩
  · simp [openGroup, hread]
  · rcases hnext : cur.groups.next? kind' with _ | groups
    · simp only [openGroup, hread, hnext, reduceCtorEq, Except.ok.injEq, Prod.mk.injEq, false_iff]
      rintro ⟨⟨rfl, -⟩, h⟩
      exact Option.some_ne_none _ (h.symm.trans hnext)
    · simp only [openGroup, hread, hnext, Except.ok.injEq, Prod.mk.injEq, Cursor.mk.injEq]
      constructor
      · rintro ⟨rfl, rfl, rfl⟩
        exact ⟨⟨rfl, rfl⟩, hnext⟩
      · rintro ⟨⟨rfl, rfl⟩, h⟩
        exact ⟨rfl, rfl, Option.some.inj (hnext.symm.trans h)⟩

/-- A group is refused as it opens for the text of its sort, or because there is no number left. -/
theorem openGroup_eq_error {whole : List Char} {cur : Cursor} {f : Fault}
    (h : openGroup whole cur = .error f) :
    GroupKind.read whole cur.rest = .error f ∨
      ∃ rest, GroupKind.read whole cur.rest = .ok (.implicit, rest) ∧ cur.groups.IsFull ∧
        f = ⟨.overflow, whole, rest⟩ := by
  unfold openGroup at h
  split at h
  · next hread =>
    cases h
    exact Or.inl hread
  · next kind rest hread =>
    split at h
    · next hnext =>
      cases h
      obtain ⟨rfl, hfull⟩ := Numbering.next?_eq_none_iff.1 hnext
      exact Or.inr ⟨rest, hread, hfull, rfl⟩
    · cases h

theorem openGroup_suffix {whole : List Char} {cur cur' : Cursor} {kind : GroupKind}
    (h : openGroup whole cur = .ok (kind, cur')) : cur'.rest <:+ cur.rest :=
  GroupKind.read_suffix (openGroup_eq_ok_iff.1 h).1

theorem group_suffix {deeper : Option Inside} {cur cur' : Cursor} {e : Regex}
    (h : group deeper cur = .ok (e, cur')) : cur'.rest <:+ cur.rest := by
  simp only [group] at h
  split at h
  · simp at h
  · next inside =>
    split at h
    · simp at h
    · next hk =>
      split at h
      · simp at h
      · next he =>
        cases h
        have s := inside.read_suffix he
        exact ((List.suffix_cons _ _).trans (List.suffix_cons _ _)).trans
          (s.trans (openGroup_suffix hk))
      · simp at h

/-! ## Atoms and pieces -/

/-- Whether a branch ends here: at the end of the pattern, at `\|` or at `\)`. -/
def branchEnds : List Char → Bool
  | [] => true
  | '\\' :: '|' :: _ => true
  | '\\' :: ')' :: _ => true
  | _ => false

/-- Puts a reading that opens no group back at a cursor. -/
def Cursor.resume (cur : Cursor) : Reading Regex → Except Fault (Regex × Cursor)
  | .error f => .error f
  | .ok (e, rest) => .ok (e, { cur with rest })

/-- Reads one atom. -/
def atom (deeper : Option Inside) (cur : Cursor) : Except Fault (Regex × Cursor) :=
  match cur.rest with
  | [] => .error ⟨.unexpectedEnd, [], []⟩
  | '\\' :: '(' :: rest => group deeper { cur with rest }
  | '\\' :: rest => cur.resume (escape cur.groups.highest rest)
  | '[' :: rest => cur.resume (brackets.read rest)
  | '.' :: rest => .ok (.primitive .notNewline, { cur with rest })
  | '$' :: rest =>
    -- What comes next decides here, as what came before does for `^`.
    .ok (if branchEnds rest then .primitive .lineEnd else .literal ['$'], { cur with rest })
  | c :: rest => .ok (.literal [c], { cur with rest })

/-- Reads one piece; `levels` more may enclose it. At the start of a branch a `^` is an assertion,
    and takes no quantifiers. -/
def piece (deeper : Option Inside) (levels : Nat) (atStart : Bool) (cur : Cursor) :
    Except Fault (Regex × Cursor) :=
  match atStart, cur.rest with
  | true, '^' :: rest => .ok (.primitive .lineStart, { cur with rest })
  | _, _ =>
    match atom deeper cur with
    | .error f => .error f
    | .ok (e, next) => next.resume (quantified quantifiers (levels - e.repeatDepth) e next.rest)

theorem resume_ok {cur cur' : Cursor} {r : Reading Regex} {e : Regex}
    (h : cur.resume r = .ok (e, cur')) : r = .ok (e, cur'.rest) := by
  unfold Cursor.resume at h
  split at h
  · simp at h
  · cases h
    rfl

theorem atom_advances {deeper : Option Inside} {cur cur' : Cursor} {e : Regex}
    (h : atom deeper cur = .ok (e, cur')) : Advances cur'.rest cur.rest := by
  unfold atom at h
  split at h
  · simp at h
  · next hr => exact hr ▸ .cons _ ((group_suffix h).trans (List.suffix_cons _ _))
  · next hr => exact hr ▸ .cons _ (escape_advances (resume_ok h)).1
  · next hr => exact hr ▸ .cons _ (BracketGrammar.read_advances (resume_ok h)).1
  · next hr =>
    cases h
    exact hr ▸ .cons _ (List.suffix_refl _)
  · next hr =>
    cases h
    exact hr ▸ .cons _ (List.suffix_refl _)
  · next hr =>
    cases h
    exact hr ▸ .cons _ (List.suffix_refl _)

theorem piece_advances {deeper : Option Inside} {levels : Nat} {atStart : Bool}
    {cur cur' : Cursor} {e : Regex} (h : piece deeper levels atStart cur = .ok (e, cur')) :
    Advances cur'.rest cur.rest := by
  unfold piece at h
  split at h
  · next hr =>
    cases h
    exact hr ▸ .cons _ (List.suffix_refl _)
  · split at h
    · simp at h
    · next ha => exact .of_suffix (quantified_suffix (resume_ok h)) (atom_advances ha)


/-! ## Branches and expressions -/

/-- Reads pieces up to the end of the branch. -/
def pieces (deeper : Option Inside) (levels : Nat) (atStart : Bool) (cur : Cursor) :
    Except Fault (List Regex × Cursor) :=
  if branchEnds cur.rest then .ok ([], cur)
  else
    match h : piece deeper levels atStart cur with
    | .error f => .error f
    | .ok (e, next) =>
      have : next.rest.length < cur.rest.length := (piece_advances h).2
      match pieces deeper levels false next with
      | .error f => .error f
      | .ok (l, last) => .ok (e :: l, last)
termination_by cur.rest.length

/-- Pieces, one step at a time. -/
theorem pieces_eq (deeper : Option Inside) (levels : Nat) (atStart : Bool) (cur : Cursor) :
    pieces deeper levels atStart cur =
      if branchEnds cur.rest then .ok ([], cur)
      else
        match piece deeper levels atStart cur with
        | .error f => .error f
        | .ok (e, next) =>
          match pieces deeper levels false next with
          | .error f => .error f
          | .ok (l, last) => .ok (e :: l, last) := by
  rw [pieces]
  split
  · rfl
  · split
    · next h => rw [h]
    · next h => simp only [h]

/-- Reads one branch. -/
def branch (deeper : Option Inside) (levels : Nat) (cur : Cursor) :
    Except Fault (Regex × Cursor) :=
  match pieces deeper levels true cur with
  | .error f => .error f
  | .ok (l, next) => .ok (.seq l, next)

theorem pieces_suffix {deeper : Option Inside} {levels : Nat} {atStart : Bool}
    {cur cur' : Cursor} {l : List Regex}
    (h : pieces deeper levels atStart cur = .ok (l, cur')) : cur'.rest <:+ cur.rest := by
  induction hn : cur.rest.length using Nat.strongRecOn generalizing cur atStart l with
  | _ n ih =>
    unfold pieces at h
    split at h
    · cases h
      exact List.suffix_refl _
    · split at h
      · simp at h
      · next hp =>
        have a := piece_advances hp
        simp only at h
        split at h
        · simp at h
        · next hl =>
          cases h
          exact (ih _ (hn ▸ a.2) hl rfl).trans a.1

theorem branch_suffix {deeper : Option Inside} {levels : Nat} {cur cur' : Cursor} {e : Regex}
    (h : branch deeper levels cur = .ok (e, cur')) : cur'.rest <:+ cur.rest := by
  unfold branch at h
  split at h
  · simp at h
  · next hl =>
    cases h
    exact pieces_suffix hl

/-- Reads branches as long as `\|` stands between them. -/
def branches (deeper : Option Inside) (levels : Nat) (cur : Cursor) :
    Except Fault (List Regex × Cursor) :=
  match h : branch deeper levels cur with
  | .error f => .error f
  | .ok (e, ⟨'\\' :: '|' :: rest, groups⟩) =>
    have : rest.length < cur.rest.length :=
      Nat.lt_of_lt_of_le (by simp only [List.length_cons]; omega) (branch_suffix h).length_le
    match branches deeper levels ⟨rest, groups⟩ with
    | .error f => .error f
    | .ok (l, last) => .ok (e :: l, last)
  | .ok (e, next) => .ok ([e], next)
termination_by cur.rest.length

/-- Branches, one step at a time. -/
theorem branches_eq (deeper : Option Inside) (levels : Nat) (cur : Cursor) :
    branches deeper levels cur =
      match branch deeper levels cur with
      | .error f => .error f
      | .ok (e, ⟨'\\' :: '|' :: rest, groups⟩) =>
        match branches deeper levels ⟨rest, groups⟩ with
        | .error f => .error f
        | .ok (l, last) => .ok (e :: l, last)
      | .ok (e, next) => .ok ([e], next) := by
  rw [branches]
  split
  · next h => rw [h]
  · next h => simp only [h]
  · next hn h =>
    rw [h]
    split
    · next heq => cases heq
    · next heq =>
      cases heq
      exact (hn _ _ rfl).elim
    · next heq =>
      cases heq
      rfl

/-- Reads an expression. -/
def alternation (deeper : Option Inside) (levels : Nat) (cur : Cursor) :
    Except Fault (Regex × Cursor) :=
  match branches deeper levels cur with
  | .error f => .error f
  | .ok (l, next) => .ok (.alt l, next)

theorem branches_suffix {deeper : Option Inside} {levels : Nat} {cur cur' : Cursor}
    {l : List Regex} (h : branches deeper levels cur = .ok (l, cur')) :
    cur'.rest <:+ cur.rest := by
  induction hn : cur.rest.length using Nat.strongRecOn generalizing cur l with
  | _ n ih =>
    unfold branches at h
    split at h
    · simp at h
    · next hb =>
      have s := branch_suffix hb
      simp only at h
      split at h
      · simp at h
      · next hl =>
        cases h
        have u := ih _ (by
          have := s.length_le
          simp only [List.length_cons] at this ⊢
          omega) hl rfl
        exact u.trans (((List.suffix_cons _ _).trans (List.suffix_cons _ _)).trans s)
    · next hb =>
      cases h
      exact branch_suffix hb

theorem alternation_suffix {deeper : Option Inside} {levels : Nat} {cur cur' : Cursor}
    {e : Regex} (h : alternation deeper levels cur = .ok (e, cur')) : cur'.rest <:+ cur.rest := by
  unfold alternation at h
  split at h
  · simp at h
  · next hl =>
    cases h
    exact branches_suffix hl

/-- The reader of an expression, given one for the level below. -/
def inside (deeper : Option Inside) (levels : Nat) : Inside where
  read := alternation deeper levels
  read_suffix := alternation_suffix

/-- The reader of an expression that `levels` more groups may be nested in. -/
def expression : Nat → Inside
  | 0 => inside none 0
  | levels + 1 => inside (some (expression levels)) (levels + 1)

/-- Reads a pattern. Only a `\)` that closes nothing ends an expression early. -/
def parse (pattern : List Char) : Except ParseError Regex :=
  match (expression maxDepth).read ⟨pattern, 0⟩ with
  | .error f => .error (f.report pattern)
  | .ok (e, ⟨[], _⟩) => .ok e
  | .ok (_, ⟨rest, _⟩) => .error (Fault.report pattern ⟨.unmatchedParen, rest, rest⟩)

end RegexDialects.Pattern.Emacs
