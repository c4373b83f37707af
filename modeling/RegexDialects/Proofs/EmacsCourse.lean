import RegexDialects.Proofs.Course
import RegexDialects.Proofs.EmacsPlaces
import RegexDialects.Proofs.Scanning

/-!
# The course of a reading of Emacs patterns

The functions of `Pattern/Emacs/Expression.lean` as tasks: an expression, what is left of a branch,
a piece, and an atom. An expression takes a turn at a bar, and a branch takes one for each piece. An
anchor at the start of a branch is a piece without an atom, so both count as atoms here.
-/

set_option autoImplicit false

namespace RegexDialects.Pattern.Emacs

/-! ## Tasks -/

/-- The tasks of a reading. -/
inductive Task where
  | expression (cur : Cursor)
  /-- What is left of a branch. -/
  | branch (atStart : Bool) (cur : Cursor)
  | piece (atStart : Bool) (cur : Cursor)
  | atom (cur : Cursor)
  | scan (t : Scan)

namespace Task

/-- What is left of the pattern when the task begins. -/
def rest : Task → List Char
  | expression cur => cur.rest
  | branch _ cur => cur.rest
  | piece _ cur => cur.rest
  | atom cur => cur.rest
  | scan t => t.rest

/-- How many more calls may come before a character is taken. -/
def rank : Task → Nat
  | expression _ => 3
  | branch _ _ => 2
  | piece _ _ => 1
  | scan t => t.rank
  | _ => 0

def IsAtom : Task → Prop
  | piece _ _ => True
  | atom _ => True
  | scan t => t.IsAtom
  | _ => False

end Task

/-- Whether a piece is an anchor at the start of a branch. -/
def IsAnchor (atStart : Bool) (text : List Char) : Prop :=
  atStart = true ∧ text.head? = some '^'

namespace Task

/-- Whether it is left to another task where this one stops. A branch stops by itself at its end,
    and so does an anchor. -/
def Delegates : Task → Prop
  | expression _ => True
  | branch _ cur => branchEnds cur.rest = false
  | piece atStart cur => ¬ IsAnchor atStart cur.rest
  | _ => False

/-- Where the task stops, or why it is refused. -/
def stops (levels : Nat) : Task → Except Fault (List Char)
  | expression cur => ((Emacs.expression levels).read cur).map (·.2.rest)
  | branch atStart cur => (pieces (below levels) levels atStart cur).map (·.2.rest)
  | piece atStart cur => (Emacs.piece (below levels) levels atStart cur).map (·.2.rest)
  | atom cur => (Emacs.atom (below levels) cur).map (·.2.rest)
  | scan t => t.stops

end Task

theorem takesSome_quantifiers : quantifiers.TakesSome := by
  intro text rest q h
  change readQuantifier? text = _ at h
  unfold readQuantifier? at h
  split at h
  · split at h
    · cases h
    · cases h
    · next hb =>
      cases h
      exact .cons _ ((Bounds.read?_suffix hb).trans (List.suffix_cons _ _))
  · split at h
    · cases h
      exact .cons _ (greedyMark_suffix _)
    · cases h
  · cases h

/-- What is left of a row of quantifiers. -/
def Task.row (budget : Nat) (e : Regex) (text : List Char) : Task :=
  .scan (.quantifiers quantifiers takesSome_quantifiers budget e text)

/-- A loop takes a turn. -/
inductive Task.Turns (levels : Nat) : Task → Task → Prop where
  | bar {cur : Cursor} {e : Regex} {rest : List Char} {groups : Numbering}
      (h : Emacs.branch (below levels) levels cur = .ok (e, ⟨'\\' :: '|' :: rest, groups⟩)) :
      Turns levels (.expression cur) (.expression ⟨rest, groups⟩)
  | piece {atStart : Bool} {cur cur' : Cursor} {e : Regex} (hn : branchEnds cur.rest = false)
      (h : Emacs.piece (below levels) levels atStart cur = .ok (e, cur')) :
      Turns levels (.branch atStart cur) (.branch false cur')
  | scan {t t' : Scan} (h : t.Turns t') : Turns levels (.scan t) (.scan t')

/-- A function is called. -/
inductive Task.Calls (levels : Nat) : Task → Task → Prop where
  | branch (cur : Cursor) : Calls levels (.expression cur) (.branch true cur)
  | piece {atStart : Bool} {cur : Cursor} (hn : branchEnds cur.rest = false) :
      Calls levels (.branch atStart cur) (.piece atStart cur)
  | atom {atStart : Bool} {cur : Cursor} (hn : ¬ IsAnchor atStart cur.rest) :
      Calls levels (.piece atStart cur) (.atom cur)
  | quantifiers {atStart : Bool} {cur next : Cursor} {e : Regex}
      (hn : ¬ IsAnchor atStart cur.rest) (h : Emacs.atom (below levels) cur = .ok (e, next)) :
      Calls levels (.piece atStart cur) (.row (levels - e.repeatDepth) e next.rest)
  | lower {budget : Nat} {e : Regex} (body : List Char) :
      Calls levels (.row budget e ('\\' :: '{' :: body))
        (.scan (.number ('\\' :: '{' :: body) body))
  | upper {budget : Nat} {e : Regex} {body rest : List Char} {n : Option Nat}
      (hn : Bounds.number? ('\\' :: '{' :: body) body = .ok (n, ',' :: rest)) :
      Calls levels (.row budget e ('\\' :: '{' :: body))
        (.scan (.number ('\\' :: '{' :: body) rest))
  | members {cur : Cursor} {text : List Char} (h : cur.rest = '[' :: text) :
      Calls levels (.atom cur) (.scan (.members brackets cur.rest true (caret? text).2))
  | digits {cur : Cursor} {text : List Char} (h : cur.rest = '\\' :: '(' :: '?' :: text)
      (hlevels : 0 < levels) (hshy : text.head? ≠ some ':') :
      Calls levels (.atom cur) (.scan (.digits text))
  | scan {t t' : Scan} (h : t.Calls t') : Calls levels (.scan t) (.scan t')

/-- What stands inside a group is read. -/
inductive Task.Opens : Task → Task → Prop where
  | group {kind : GroupKind} {cur cur' : Cursor} (h : Emacs.Opens kind cur cur') :
      Opens (.atom cur) (.expression cur')

/-- The course of a reading of this dialect. -/
def course : Course where
  Task := Task
  rest := Task.rest
  IsAtom := Task.IsAtom
  Delegates := Task.Delegates
  rank := Task.rank
  stops := Task.stops
  Turns := Task.Turns
  Calls := Task.Calls
  Opens := Task.Opens
  close := ['\\', ')']
  start pattern := .expression ⟨pattern, 0⟩

section

variable {levels : Nat} {t t' : Task} {f : Fault} {cur : Cursor} {text : List Char}
  {deeper : Option Inside}

/-! ## Turns -/

theorem stops_expression (levels : Nat) (cur : Cursor) :
    (Task.expression cur).stops levels = (branches (below levels) levels cur).map (·.2.rest) := by
  show ((expression levels).read cur).map _ = _
  rw [expression_eq]
  show (alternation (below levels) levels cur).map _ = _
  unfold alternation
  cases branches (below levels) levels cur <;> rfl

theorem stops_branch (levels : Nat) (cur : Cursor) :
    (Task.branch true cur).stops levels = (branch (below levels) levels cur).map (·.2.rest) := by
  show (pieces _ _ _ _).map _ = _
  unfold branch
  cases pieces (below levels) levels true cur <;> rfl

theorem turn_advances (h : Task.Turns levels t t') : Advances t'.rest t.rest := by
  cases h with
  | bar h => exact Advances.suffix_of (.cons _ (List.suffix_cons _ _)) (branch_suffix h)
  | piece _ h => exact piece_advances h
  | scan h => exact Scan.turn_advances h

/-- A loop that takes a turn stops where it stops after the turn. -/
theorem turn_stops (h : Task.Turns levels t t') : t.stops levels = t'.stops levels := by
  cases h with
  | bar h =>
    rw [stops_expression, stops_expression, branches_eq, h]
    simp only
    cases branches (below levels) levels _ <;> rfl
  | piece hn h =>
    show (pieces _ _ _ _).map _ = (pieces _ _ _ _).map _
    rw [pieces_eq, hn, h]
    simp only [Bool.false_eq_true, if_false]
    cases pieces (below levels) levels false _ <;> rfl
  | scan h => exact Scan.turn_stops h

/-! ## Calls -/

/-- Between an expression and its first atom no character is taken. -/
theorem call_advances (h : Task.Calls levels t t') :
    Advances t'.rest t.rest ∨ t'.rest <:+ t.rest ∧ t'.rank < t.rank := by
  cases h with
  | branch => exact Or.inr ⟨List.suffix_refl _, Nat.lt_succ_self 2⟩
  | piece _ => exact Or.inr ⟨List.suffix_refl _, Nat.one_lt_two⟩
  | atom _ => exact Or.inr ⟨List.suffix_refl _, Nat.zero_lt_one⟩
  | quantifiers _ h => exact Or.inl (atom_advances h)
  | lower => exact Or.inl (.cons _ (List.suffix_cons _ _))
  | upper hn =>
    have hrest := (List.suffix_cons _ _).trans (Bounds.number?_suffix hn)
    exact Or.inl (.cons _ (hrest.trans (List.suffix_cons _ _)))
  | members h => exact Or.inl (.of_eq_cons h (caret?_suffix _))
  | digits h _ _ =>
    exact Or.inl (.of_eq_cons h ((List.suffix_cons _ _).trans (List.suffix_cons _ _)))
  | scan h => exact Scan.call_advances h

theorem piece_of_not_isAnchor {atStart : Bool} (hn : ¬ IsAnchor atStart cur.rest) :
    piece deeper levels atStart cur =
      match atom deeper cur with
      | .error f => .error f
      | .ok (e, next) =>
        next.resume (quantified quantifiers (levels - e.repeatDepth) e next.rest) := by
  unfold piece
  split
  · next hr => exact absurd ⟨rfl, hr ▸ rfl⟩ hn
  · rfl

theorem quantified_of_bounds_error {budget : Nat} {e : Regex} {body : List Char}
    (h : Bounds.read? ['\\', '}'] ('\\' :: '{' :: body) body = .error f) :
    quantified quantifiers budget e ('\\' :: '{' :: body) = .error f := by
  apply quantified_of_read?_error
  show readQuantifier? ('\\' :: '{' :: body) = _
  simp only [readQuantifier?, h]

theorem atom_of_brackets_error (h : cur.rest = '[' :: text)
    (hf : brackets.members cur.rest true (caret? text).2 = .error f) :
    atom deeper cur = .error f := by
  rw [h] at hf
  have hread : brackets.read text = .error f := by simp only [BracketGrammar.read, hf]
  unfold atom
  rw [h]
  show cur.resume (brackets.read text) = _
  rw [hread]
  rfl

/-- What a called function refuses, the caller refuses. -/
theorem call_refused (h : Task.Calls levels t t') (hf : t'.stops levels = .error f) :
    t.stops levels = .error f := by
  cases h with
  | branch cur =>
    rw [stops_branch] at hf
    rw [stops_expression, branches_eq, map_eq_error_iff.1 hf]
    rfl
  | piece hn =>
    refine map_eq_error_iff.2 ?_
    rw [pieces_eq, hn]
    simp only [map_eq_error_iff.1 hf, Bool.false_eq_true, if_false]
  | atom hn =>
    refine map_eq_error_iff.2 ?_
    simp only [piece_of_not_isAnchor hn, map_eq_error_iff.1 hf]
  | quantifiers hn h =>
    refine map_eq_error_iff.2 ?_
    simp only [piece_of_not_isAnchor hn, h, map_eq_error_iff.1 hf, Cursor.resume]
  | lower body =>
    refine map_eq_error_iff.2 (quantified_of_bounds_error ?_)
    exact Bounds.read?_of_number?_error (map_eq_error_iff.1 hf)
  | upper hn =>
    refine map_eq_error_iff.2 (quantified_of_bounds_error ?_)
    exact Bounds.read?_of_upper?_error hn (map_eq_error_iff.1 hf)
  | members h => exact map_eq_error_iff.2 (atom_of_brackets_error h (map_eq_error_iff.1 hf))
  | digits _ _ _ => cases hf
  | scan h => exact Scan.call_refused h hf

/-! ## Groups -/

theorem open_advances (h : t.Opens t') : Advances t'.rest t.rest := by
  cases h with
  | group h =>
    obtain ⟨text, hr, hk⟩ := h
    exact .of_eq_cons hr ((openGroup_suffix hk).trans (List.suffix_cons _ _))

/-- A group stops behind the parenthesis that closes it. -/
theorem open_stops (h : t.Opens t') :
    t.stops (levels + 1) = Course.closed ['\\', ')'] t.rest (t'.stops levels) := by
  cases h with
  | @group kind cur cur' h =>
    obtain ⟨text, hr, hk⟩ := h
    rw [hr] at hk
    show (atom (below (levels + 1)) cur).map (·.2.rest) = Course.closed ['\\', ')'] cur.rest
      (((expression levels).read cur').map (·.2.rest))
    rw [atom_eq_group hr, hr]
    simp only [below, group, hk]
    split
    · next hread =>
      rw [hread]
      rfl
    · next hread =>
      rw [hread]
      rfl
    · next hne hread =>
      rw [hread]
      exact (Course.closed_of_ne hne).symm

/-! ## Delegation -/

theorem branches_of_not_bar {e : Regex} {rest : List Char} {groups : Numbering}
    (h : branch deeper levels cur = .ok (e, ⟨rest, groups⟩))
    (hrest : ∀ l, rest ≠ '\\' :: '|' :: l) :
    branches deeper levels cur = .ok ([e], ⟨rest, groups⟩) := by
  unfold branches
  split
  · next heq =>
    rw [h] at heq
    cases heq
  · next heq =>
    rw [h] at heq
    cases heq
    exact absurd rfl (hrest _)
  · next heq =>
    rw [h] at heq
    cases heq
    rfl

theorem delegates (h : t.Delegates) :
    ∃ t', (Task.Turns levels t t' ∨ Task.Calls levels t t') ∧ t'.stops levels = t.stops levels := by
  cases t with
  | expression cur =>
    rcases hb : branch (below levels) levels cur with f | ⟨e, ⟨rest, groups⟩⟩
    · refine ⟨_, Or.inr (.branch cur), ?_⟩
      rw [stops_branch, stops_expression, branches_eq, hb]
      rfl
    · by_cases hbar : ∃ l, rest = '\\' :: '|' :: l
      · obtain ⟨l, rfl⟩ := hbar
        exact ⟨_, Or.inl (.bar hb), (turn_stops (.bar hb)).symm⟩
      · refine ⟨_, Or.inr (.branch cur), ?_⟩
        rw [stops_branch, stops_expression, hb, branches_of_not_bar hb (not_exists.1 hbar)]
        rfl
  | branch atStart cur =>
    rcases hp : piece (below levels) levels atStart cur with f | ⟨e, cur'⟩
    · refine ⟨_, Or.inr (.piece h), ?_⟩
      show (piece _ _ _ _).map _ = (pieces _ _ _ _).map _
      rw [pieces_eq, h, hp]
      rfl
    · exact ⟨_, Or.inl (.piece h hp), (turn_stops (.piece h hp)).symm⟩
  | piece atStart cur =>
    rcases ha : atom (below levels) cur with f | ⟨e, next⟩
    · have hstops : piece (below levels) levels atStart cur = .error f := by
        simp only [piece_of_not_isAnchor h, ha]
      exact ⟨_, Or.inr (.atom h), (map_eq_error_iff.2 ha).trans (map_eq_error_iff.2 hstops).symm⟩
    · refine ⟨_, Or.inr (.quantifiers h ha), ?_⟩
      show (quantified _ _ _ _).map _ = (piece _ _ _ _).map _
      rw [piece_of_not_isAnchor h, ha]
      simp only
      cases quantified quantifiers (levels - e.repeatDepth) e next.rest <;> rfl
  | _ => exact h.elim

/-! ## The course -/

theorem stops_suffix (h : t.stops levels = .ok text) : text <:+ t.rest := by
  cases t with
  | expression cur =>
    obtain ⟨r, hread, rfl⟩ := map_eq_ok_iff.1 h
    exact (expression levels).read_suffix hread
  | branch atStart cur =>
    obtain ⟨r, hread, rfl⟩ := map_eq_ok_iff.1 h
    exact pieces_suffix hread
  | piece atStart cur =>
    obtain ⟨r, hread, rfl⟩ := map_eq_ok_iff.1 h
    exact (piece_advances hread).1
  | atom cur =>
    obtain ⟨r, hread, rfl⟩ := map_eq_ok_iff.1 h
    exact (atom_advances hread).1
  | scan t => exact Scan.stops_suffix h

theorem stops_atom_advances (ht : t.IsAtom) (h : t.stops levels = .ok text) :
    Advances text t.rest := by
  cases t with
  | piece atStart cur =>
    obtain ⟨r, hread, rfl⟩ := map_eq_ok_iff.1 h
    exact piece_advances hread
  | atom cur =>
    obtain ⟨r, hread, rfl⟩ := map_eq_ok_iff.1 h
    exact atom_advances hread
  | scan t => exact Scan.atom_advances ht h
  | _ => exact ht.elim

theorem rank_le (t : Task) : t.rank ≤ 3 := by
  cases t with
  | scan t => exact (Scan.rank_le t).trans (Nat.le_succ 2)
  | _ => simp [Task.rank]

theorem lawful_course : course.Lawful where
  rest_start := fun _ => rfl
  rank_le := rank_le
  turn_advances := turn_advances
  turn_stops := turn_stops
  call_advances := call_advances
  call_refused := call_refused
  open_advances := open_advances
  open_stops := open_stops
  delegates := delegates
  stops_suffix := stops_suffix
  atom_advances := stops_atom_advances

end

end RegexDialects.Pattern.Emacs
