import RegexDialects.Pattern.Pcre.Escape
import RegexDialects.Pattern.Pcre.Opening
import RegexDialects.Pattern.Pcre.Quantifier

/-!
# Reading PCRE

```
expression ::= branch ( '|' branch )*
branch     ::= step*
step       ::= ( atom | group ) quantifier* | quoted quantifier* | '(?' flags ')' | '\E' quantifier*
group      ::= '(' opening? expression ')'
opening    ::= '?:' | '?<' name '>' | '?P<' name '>' | '?' 'name' | '?' flags ':'
```

A flag set inside a group holds to the end of that group, branches included. A branch is read step
by step (`step`), with the pieces read so far at hand, the latest first: a `\E` that ends no
quotation is dropped, and quantifiers behind it apply to the piece in front of it.

Groups nest to a limited depth, so an expression is read by recursion on the number of levels that
are left: `expression levels` reads what stands inside a group with the help of
`expression (levels - 1)` (`Inside`).
-/

set_option autoImplicit false

namespace RegexDialects.Pattern.Pcre

/-- Where a reader is: the rest of the pattern, and how many capturing groups were opened. Their
    number has no bound here. A number of more than 32 bits is out of reach, since every group has
    its own parentheses, and so many of them make a pattern of 8 GiB. -/
structure Cursor where
  rest : List Char
  groups : Nat
  deriving DecidableEq, Repr

/-! ## Groups -/

/-- A reader for what stands inside a group. -/
structure Inside where
  read : Flags → Cursor → Except Fault (Regex × Cursor)
  read_suffix : ∀ {f cur cur' e}, read f cur = .ok (e, cur') → cur'.rest <:+ cur.rest

/-- Reads the body of a group and its closing parenthesis. -/
def groupBody (inside : Inside) (whole : List Char) (flags : Flags) (cur : Cursor) :
    Except Fault (Regex × Cursor) :=
  match inside.read flags cur with
  | .error f => .error f
  | .ok (e, ⟨')' :: rest, groups⟩) => .ok (e, ⟨rest, groups⟩)
  | .ok (_, ⟨rest, _⟩) => .error ⟨.unmatchedParen, whole, rest⟩

/-- Reads a group, at the place behind the opening parenthesis; without a `deeper` reader no level
    is left for it. -/
def group (deeper : Option Inside) (flags : Flags) (cur : Cursor) :
    Except Fault (Atom × Cursor) :=
  let whole := '(' :: cur.rest
  match deeper with
  | none => .error ⟨.tooDeep, whole, cur.rest⟩
  | some inside =>
    match Opening.read whole flags cur.rest with
    | .error f => .error f
    | .ok (.comment, rest) => .ok (.piece .empty, { cur with rest })
    | .ok (.setFlags f, rest) => .ok (.flags f, { cur with rest })
    | .ok (.shy inner, rest) =>
      match groupBody inside whole inner { cur with rest } with
      | .error f => .error f
      | .ok (e, next) => .ok (.piece e, next)
    | .ok (.capture, rest) =>
      match groupBody inside whole flags ⟨rest, cur.groups + 1⟩ with
      | .error f => .error f
      | .ok (e, next) => .ok (.piece (.group e), next)

theorem groupBody_suffix {inside : Inside} {whole : List Char} {flags : Flags}
    {cur cur' : Cursor} {e : Regex} (h : groupBody inside whole flags cur = .ok (e, cur')) :
    cur'.rest <:+ cur.rest := by
  unfold groupBody at h
  split at h
  · simp at h
  · next hb =>
    cases h
    exact (List.suffix_cons _ _).trans (inside.read_suffix hb)
  · simp at h

theorem group_suffix {deeper : Option Inside} {flags : Flags} {cur cur' : Cursor} {a : Atom}
    (h : group deeper flags cur = .ok (a, cur')) : cur'.rest <:+ cur.rest := by
  simp only [group] at h
  split at h
  · simp at h
  · split at h
    · simp at h
    · next ho =>
      cases h
      exact Opening.read_suffix ho
    · next ho =>
      cases h
      exact Opening.read_suffix ho
    · next ho =>
      split at h
      · simp at h
      · next hb =>
        cases h
        exact (groupBody_suffix hb).trans (Opening.read_suffix ho)
    · next ho =>
      split at h
      · simp at h
      · next hb =>
        cases h
        exact (groupBody_suffix hb).trans (Opening.read_suffix ho)

/-! ## Atoms -/

/-- Reads one atom. -/
def atom (deeper : Option Inside) (flags : Flags) (cur : Cursor) : Except Fault (Atom × Cursor) :=
  match cur.rest with
  | [] => .error ⟨.unexpectedEnd, [], []⟩
  | c :: rest =>
    if c = '(' then group deeper flags { cur with rest }
    else if c = '[' then
      match brackets.read rest with
      | .error f => .error f
      | .ok (e, rest) => .ok (.piece e, { cur with rest })
    else if c = '\\' then
      match escape cur.groups rest with
      | .error f => .error f
      | .ok (a, rest) => .ok (a, { cur with rest })
    else if c = '.' then
      .ok (.piece (.primitive (if flags.singleLine then .anything else .notNewline)),
        { cur with rest })
    else if c = '^' then .ok (.piece (.primitive .lineStart), { cur with rest })
    else if c = '$' then .ok (.piece (.primitive .lineEnd), { cur with rest })
    else if (operatorBounds? c).isSome then .error ⟨.nothingToRepeat, c :: rest, rest⟩
    else .ok (.piece (.literal [c]), { cur with rest })

theorem atom_advances {deeper : Option Inside} {flags : Flags} {cur cur' : Cursor} {a : Atom}
    (h : atom deeper flags cur = .ok (a, cur')) : Advances cur'.rest cur.rest := by
  unfold atom at h
  split at h
  · simp at h
  · next c rest hr =>
    refine hr ▸ .cons _ ?_
    split at h
    · exact group_suffix h
    · split at h
      · split at h
        · simp at h
        · next hb =>
          cases h
          exact (BracketGrammar.read_advances hb).1
      · split at h
        · split at h
          · simp at h
          · next he =>
            cases h
            exact escape_suffix he
        · split at h
          · cases h
            exact List.suffix_refl _
          · split at h
            · cases h
              exact List.suffix_refl _
            · split at h
              · cases h
                exact List.suffix_refl _
              · split at h
                · simp at h
                · cases h
                  exact List.suffix_refl _


/-! ## Steps, branches and expressions -/

/-- The pieces of a branch so far, the latest first, and the flags under which it goes on. -/
structure Progress where
  pieces : List Regex
  flags : Flags

/-- Puts `e`, with the quantifiers that follow, in front of `pieces`. -/
def addPiece (levels : Nat) (flags : Flags) (pieces : List Regex) (e : Regex) (cur : Cursor) :
    Except Fault (Progress × Cursor) :=
  match quantified (quantifiers flags) (levels - e.repeatDepth) e cur.rest with
  | .error f => .error f
  | .ok (e, rest) => .ok (⟨e :: pieces, flags⟩, { cur with rest })

/-- What an atom does to a branch. Of a quotation, only the last character takes quantifiers; an end
    mark of a quotation makes the piece before it take more of them. -/
def addAtom (levels : Nat) (done : Progress) (a : Atom) (cur : Cursor) :
    Except Fault (Progress × Cursor) :=
  match a with
  | .flags f => .ok ({ done with flags := f }, cur)
  | .piece e => addPiece levels done.flags done.pieces e cur
  | .quoted text =>
    match text.reverse with
    -- An empty quotation adds no piece, so a quantifier behind it has nothing to repeat.
    | [] => .ok (done, cur)
    | c :: l => addPiece levels done.flags (.text l.reverse :: done.pieces) (.literal [c]) cur
  | .nothing =>
    match done.pieces with
    | [] => .ok (done, cur)
    | e :: l => addPiece levels done.flags l e cur

/-- Reads one atom and adds it to a branch. -/
def step (deeper : Option Inside) (levels : Nat) (done : Progress) (cur : Cursor) :
    Except Fault (Progress × Cursor) :=
  match atom deeper done.flags cur with
  | .error f => .error f
  | .ok (a, next) => addAtom levels done a next

/-- Whether a branch ends here: at the end of the pattern, at `|` or at `)`. -/
def branchEnds : List Char → Bool
  | [] => true
  | c :: _ => c == '|' || c == ')'

theorem addPiece_suffix {levels : Nat} {flags : Flags} {pieces : List Regex} {e : Regex}
    {cur cur' : Cursor} {p : Progress}
    (h : addPiece levels flags pieces e cur = .ok (p, cur')) : cur'.rest <:+ cur.rest := by
  unfold addPiece at h
  split at h
  · simp at h
  · next hq =>
    cases h
    exact quantified_suffix hq

theorem addAtom_suffix {levels : Nat} {done p : Progress} {a : Atom} {cur cur' : Cursor}
    (h : addAtom levels done a cur = .ok (p, cur')) : cur'.rest <:+ cur.rest := by
  unfold addAtom at h
  split at h
  · cases h
    exact List.suffix_refl _
  · exact addPiece_suffix h
  · split at h
    · cases h
      exact List.suffix_refl _
    · exact addPiece_suffix h
  · split at h
    · cases h
      exact List.suffix_refl _
    · exact addPiece_suffix h

theorem step_advances {deeper : Option Inside} {levels : Nat} {done p : Progress}
    {cur cur' : Cursor} (h : step deeper levels done cur = .ok (p, cur')) :
    Advances cur'.rest cur.rest := by
  unfold step at h
  split at h
  · simp at h
  · next ha => exact .of_suffix (addAtom_suffix h) (atom_advances ha)

/-- Moves a cursor over what the flags say is ignored. -/
def Cursor.skip (flags : Flags) (cur : Cursor) : Cursor :=
  { cur with rest := Pcre.skip flags cur.rest }

/-- Reads steps up to the end of the branch. -/
def steps (deeper : Option Inside) (levels : Nat) (done : Progress) (cur : Cursor) :
    Except Fault (Progress × Cursor) :=
  if branchEnds (cur.skip done.flags).rest then .ok (done, cur.skip done.flags)
  else
    match h : step deeper levels done (cur.skip done.flags) with
    | .error f => .error f
    | .ok (done, next) =>
      have : next.rest.length < cur.rest.length :=
        ((step_advances h).suffix_of (skip_suffix _ _)).2
      steps deeper levels done next
termination_by cur.rest.length

/-- Reads one branch: its tree, and the flags under which the group goes on. -/
def branch (deeper : Option Inside) (levels : Nat) (flags : Flags) (cur : Cursor) :
    Except Fault ((Regex × Flags) × Cursor) :=
  match steps deeper levels ⟨[], flags⟩ cur with
  | .error f => .error f
  | .ok (done, next) => .ok ((.seq done.pieces.reverse, done.flags), next)

theorem steps_suffix {deeper : Option Inside} {levels : Nat} {done p : Progress}
    {cur cur' : Cursor} (h : steps deeper levels done cur = .ok (p, cur')) :
    cur'.rest <:+ cur.rest := by
  induction hn : cur.rest.length using Nat.strongRecOn generalizing cur done with
  | _ n ih =>
    unfold steps at h
    split at h
    · cases h
      exact skip_suffix _ _
    · split at h
      · simp at h
      · next hs =>
        have a := (step_advances hs).suffix_of (skip_suffix _ _)
        exact (ih _ (hn ▸ a.2) h rfl).trans a.1

theorem branch_suffix {deeper : Option Inside} {levels : Nat} {flags : Flags}
    {cur cur' : Cursor} {r : Regex × Flags} (h : branch deeper levels flags cur = .ok (r, cur')) :
    cur'.rest <:+ cur.rest := by
  unfold branch at h
  split at h
  · simp at h
  · next hs =>
    cases h
    exact steps_suffix hs

/-- Reads branches as long as `|` stands between them. Flags go on from one branch to the next. -/
def branches (deeper : Option Inside) (levels : Nat) (flags : Flags) (cur : Cursor) :
    Except Fault (List Regex × Cursor) :=
  match h : branch deeper levels flags cur with
  | .error f => .error f
  | .ok ((e, flags), ⟨'|' :: rest, groups⟩) =>
    have : rest.length < cur.rest.length :=
      Nat.lt_of_lt_of_le (by simp only [List.length_cons]; omega) (branch_suffix h).length_le
    match branches deeper levels flags ⟨rest, groups⟩ with
    | .error f => .error f
    | .ok (l, last) => .ok (e :: l, last)
  | .ok ((e, _), next) => .ok ([e], next)
termination_by cur.rest.length

/-- Reads an expression. -/
def alternation (deeper : Option Inside) (levels : Nat) (flags : Flags) (cur : Cursor) :
    Except Fault (Regex × Cursor) :=
  match branches deeper levels flags cur with
  | .error f => .error f
  | .ok (l, next) => .ok (.alt l, next)

theorem branches_suffix {deeper : Option Inside} {levels : Nat} {flags : Flags}
    {cur cur' : Cursor} {l : List Regex}
    (h : branches deeper levels flags cur = .ok (l, cur')) : cur'.rest <:+ cur.rest := by
  induction hn : cur.rest.length using Nat.strongRecOn generalizing cur flags l with
  | _ n ih =>
    unfold branches at h
    split at h
    · simp at h
    · next hb =>
      have s := branch_suffix hb
      simp only at h
      split at h
      · simp at h
      · next hl =>
        cases h
        have u := ih _ (by
          have := s.length_le
          simp only [List.length_cons] at this ⊢
          omega) hl rfl
        exact u.trans ((List.suffix_cons _ _).trans s)
    · next hb =>
      cases h
      exact branch_suffix hb

theorem alternation_suffix {deeper : Option Inside} {levels : Nat} {flags : Flags}
    {cur cur' : Cursor} {e : Regex}
    (h : alternation deeper levels flags cur = .ok (e, cur')) : cur'.rest <:+ cur.rest := by
  unfold alternation at h
  split at h
  · simp at h
  · next hl =>
    cases h
    exact branches_suffix hl

/-- The reader of an expression, given one for the level below. -/
def inside (deeper : Option Inside) (levels : Nat) : Inside where
  read := alternation deeper levels
  read_suffix := alternation_suffix

/-- The reader of an expression that `levels` more groups may be nested in. -/
def expression : Nat → Inside
  | 0 => inside none 0
  | levels + 1 => inside (some (expression levels)) (levels + 1)

/-- Reads a pattern, with all flags off. Only a `)` that closes nothing ends an expression early. -/
def parse (pattern : List Char) : Except ParseError Regex :=
  match (expression maxDepth).read ⟨false, false⟩ ⟨pattern, 0⟩ with
  | .error f => .error (f.report pattern)
  | .ok (e, ⟨[], _⟩) => .ok e
  | .ok (_, ⟨rest, _⟩) => .error (Fault.report pattern ⟨.unmatchedParen, rest, rest⟩)

end RegexDialects.Pattern.Pcre
