import RegexDialects.Proofs.Course
import RegexDialects.Proofs.Fragment
import RegexDialects.Proofs.Scanning

/-!
# The course of a reading of PCRE

The functions of `Pattern/Pcre/Expression.lean` as tasks: an expression, what is left of a branch,
an atom, the opening of a group, and a quotation. All but the atom are loops. An expression takes a
turn at a bar, and a branch takes one for each step, also for a step without a tree: flags, or the
end mark of a quotation. An opening has one of three loops (`Opening.Loop`), or none; these and a
quotation take a turn for each character.
-/

set_option autoImplicit false

namespace RegexDialects.Pattern.Pcre

/-! ## Openings of groups -/

namespace Opening

/-- The loops that read an opening. -/
inductive Loop where
  | comment
  | name (close : Char)
  | flags (on : Bool) (f : Flags)

namespace Loop

variable {whole text rest : List Char} {c : Char} {loop loop' : Loop} {o : Opening}

/-- Reads what is left of an opening. -/
def read (whole : List Char) : Loop → List Char → Reading Opening
  | comment => commentEnd whole
  | name close => nameEnd whole close
  | flags on f => flagsEnd whole on f

/-- How a loop goes on behind a character, if it does. -/
def next? (c : Char) : Loop → Option Loop
  | comment => if c = ')' then none else some comment
  | name close =>
    if c = close then none else if isAlphanumeric c ∨ c = '_' then some (name close) else none
  | flags on f =>
    if c = '-' ∧ on then some (flags false f)
    else if c = 'x' then some (flags on { f with extended := on })
    else if c = 's' then some (flags on { f with singleLine := on })
    else none

theorem read_suffix (h : loop.read whole text = .ok (o, rest)) : rest <:+ text := by
  cases loop with
  | comment => exact commentEnd_suffix h
  | name close => exact nameEnd_suffix h
  | flags on f => exact flagsEnd_suffix h

/-- A loop that takes a turn reads on behind the character. -/
theorem read_cons (h : loop.next? c = some loop') :
    loop.read whole (c :: rest) = loop'.read whole rest := by
  cases loop with
  | comment =>
    simp only [next?] at h
    split at h
    · cases h
    · next hc =>
      cases h
      exact if_neg hc
  | name close =>
    simp only [next?] at h
    split at h
    · cases h
    · next hc =>
      split at h
      · next hname =>
        cases h
        exact (if_neg hc).trans (if_pos hname)
      · cases h
  | flags on f =>
    show flagsEnd whole on f (c :: rest) = _
    unfold flagsEnd
    simp only [next?] at h
    split at h
    · next hc =>
      cases h
      exact if_pos hc
    · next hc =>
      rw [if_neg hc]
      split at h
      · next hx =>
        cases h
        exact if_pos hx
      · next hx =>
        rw [if_neg hx]
        split at h
        · next hs =>
          cases h
          exact if_pos hs
        · cases h

end Loop

/-- The loop that reads an opening, and where it begins, at the place behind the parenthesis. -/
def loop? (f : Flags) : List Char → Option (Loop × List Char)
  | '?' :: '#' :: rest => some (.comment, rest)
  | '?' :: '<' :: '=' :: _ => none
  | '?' :: '<' :: '!' :: _ => none
  | '?' :: '<' :: rest => some (.name '>', rest)
  | '?' :: '\x27' :: rest => some (.name '\x27', rest)
  | '?' :: 'P' :: '<' :: rest => some (.name '>', rest)
  | '?' :: 'P' :: _ => none
  | '?' :: 'R' :: _ => none
  | '?' :: c :: rest => if c.isAlpha ∨ c = '-' then some (.flags true f, c :: rest) else none
  | _ => none

variable {whole text text' : List Char} {f : Flags} {loop : Loop}

theorem loop?_suffix (h : loop? f text = some (loop, text')) : text' <:+ text := by
  unfold loop? at h
  split at h <;> try cases h
  · exact (List.suffix_cons _ _).trans (List.suffix_cons _ _)
  · exact (List.suffix_cons _ _).trans (List.suffix_cons _ _)
  · exact (List.suffix_cons _ _).trans (List.suffix_cons _ _)
  · exact (List.suffix_cons _ _).trans ((List.suffix_cons _ _).trans (List.suffix_cons _ _))
  · split at h <;> cases h
    exact List.suffix_cons _ _

theorem read_eq_loop (h : loop? f text = some (loop, text')) :
    read whole f text = loop.read whole text' := by
  unfold loop? at h
  split at h <;> try cases h
  · rfl
  · simp only [read, special, Loop.read]
  · rfl
  · rfl
  · split at h
    · next c rest _ _ _ _ _ _ _ _ hc =>
      cases h
      -- A colon would have ended the opening at once.
      have hcolon : c = ':' → False := by
        rintro rfl
        revert hc
        decide
      simp only [read, special, Loop.read, hc, if_true]
    · cases h

end Opening

/-! ## Tasks -/

/-- The tasks of a reading. -/
inductive Task where
  | expression (flags : Flags) (cur : Cursor)
  /-- What is left of a branch behind the pieces so far. -/
  | branch (done : Progress) (cur : Cursor)
  | atom (flags : Flags) (cur : Cursor)
  | opening (whole : List Char) (loop : Opening.Loop) (text : List Char)
  | quotation (text : List Char)
  | scan (t : Scan)

namespace Task

/-- What is left of the pattern when the task begins. -/
def rest : Task → List Char
  | expression _ cur => cur.rest
  | branch _ cur => cur.rest
  | atom _ cur => cur.rest
  | opening _ _ text => text
  | quotation text => text
  | scan t => t.rest

/-- How many more calls may come before a character is taken. -/
def rank : Task → Nat
  | expression _ _ => 2
  | branch _ _ => 1
  | scan t => t.rank
  | _ => 0

def IsAtom : Task → Prop
  | atom _ _ => True
  | scan t => t.IsAtom
  | _ => False

/-- Whether it is left to another task where this one stops. A branch stops by itself at its end. -/
def Delegates : Task → Prop
  | expression _ _ => True
  | branch done cur => branchEnds (cur.skip done.flags).rest = false
  | _ => False

/-- Where the task stops, or why it is refused. -/
def stops (levels : Nat) : Task → Except Fault (List Char)
  | expression flags cur => ((Pcre.expression levels).read flags cur).map (·.2.rest)
  | branch done cur => (steps (below levels) levels done cur).map (·.2.rest)
  | atom flags cur => (Pcre.atom (below levels) flags cur).map (·.2.rest)
  | opening whole loop text => (loop.read whole text).map Prod.snd
  | quotation text => .ok (Pcre.quotation text).2
  | scan t => t.stops

end Task

/-- The tree that quantifiers behind an atom apply to, if there is one. -/
def Progress.target? (done : Progress) : Atom → Option Regex
  | .piece e => some e
  | .quoted text => text.reverse.head?.map fun c => .literal [c]
  | .flags _ => none
  | .nothing => done.pieces.head?

/-- A quantifier is never empty. -/
theorem takesSome_quantifiers (flags : Flags) : (quantifiers flags).TakesSome := by
  intro text rest q h
  change readQuantifier? text = _ at h
  unfold readQuantifier? at h
  split at h
  · split at h
    · cases h
    · cases h
    · next hb =>
      split at h
      · cases h
      · exact .cons _ ((marked_suffix h).trans (Bounds.read?_suffix hb))
  · split at h
    · exact .cons _ (marked_suffix h)
    · cases h
  · cases h

/-- What is left of a row of quantifiers under `flags`. -/
def Task.row (flags : Flags) (budget : Nat) (e : Regex) (text : List Char) : Task :=
  .scan (.quantifiers (quantifiers flags) (takesSome_quantifiers flags) budget e text)

/-- A loop takes a turn. -/
inductive Task.Turns (levels : Nat) : Task → Task → Prop where
  | bar {flags flags' : Flags} {cur : Cursor} {e : Regex} {rest : List Char} {groups : Nat}
      (h : Pcre.branch (below levels) levels flags cur =
        .ok ((e, flags'), ⟨'|' :: rest, groups⟩)) :
      Turns levels (.expression flags cur) (.expression flags' ⟨rest, groups⟩)
  | step {done done' : Progress} {cur cur' : Cursor}
      (hn : branchEnds (cur.skip done.flags).rest = false)
      (h : Pcre.step (below levels) levels done (cur.skip done.flags) = .ok (done', cur')) :
      Turns levels (.branch done cur) (.branch done' cur')
  | opening {whole rest : List Char} {c : Char} {loop loop' : Opening.Loop}
      (h : loop.next? c = some loop') :
      Turns levels (.opening whole loop (c :: rest)) (.opening whole loop' rest)
  | quoted {rest : List Char} {c : Char} (h : ∀ l, c :: rest ≠ '\\' :: 'E' :: l) :
      Turns levels (.quotation (c :: rest)) (.quotation rest)
  | scan {t t' : Scan} (h : t.Turns t') : Turns levels (.scan t) (.scan t')

/-- A function is called. -/
inductive Task.Calls (levels : Nat) : Task → Task → Prop where
  | branch (flags : Flags) (cur : Cursor) :
      Calls levels (.expression flags cur) (.branch ⟨[], flags⟩ cur)
  | atom {done : Progress} {cur : Cursor} (hn : branchEnds (cur.skip done.flags).rest = false) :
      Calls levels (.branch done cur) (.atom done.flags (cur.skip done.flags))
  | quantifiers {done : Progress} {cur next : Cursor} {a : Atom} {e : Regex}
      (hn : branchEnds (cur.skip done.flags).rest = false)
      (h : Pcre.atom (below levels) done.flags (cur.skip done.flags) = .ok (a, next))
      (he : done.target? a = some e) :
      Calls levels (.branch done cur) (.row done.flags (levels - e.repeatDepth) e next.rest)
  | lower {flags : Flags} {budget : Nat} {e : Regex} {text body : List Char}
      (h : skip flags text = '{' :: body) :
      Calls levels (.row flags budget e text) (.scan (.number ('{' :: body) body))
  | upper {flags : Flags} {budget : Nat} {e : Regex} {text body rest : List Char} {n : Option Nat}
      (h : skip flags text = '{' :: body)
      (hn : Bounds.number? ('{' :: body) body = .ok (n, ',' :: rest)) :
      Calls levels (.row flags budget e text) (.scan (.number ('{' :: body) rest))
  | members {flags : Flags} {cur : Cursor} {text : List Char} (h : cur.rest = '[' :: text) :
      Calls levels (.atom flags cur) (.scan (.members brackets cur.rest true (caret? text).2))
  | digits {flags : Flags} {cur : Cursor} {c : Char} {text : List Char}
      (h : cur.rest = '\\' :: c :: text) (hd : c.isDigit = true) :
      Calls levels (.atom flags cur) (.scan (.digits (c :: text)))
  | quotation {flags : Flags} {cur : Cursor} {text : List Char}
      (h : cur.rest = '\\' :: 'Q' :: text) : Calls levels (.atom flags cur) (.quotation text)
  | opening {flags : Flags} {cur : Cursor} {text text' : List Char} {loop : Opening.Loop}
      (h : cur.rest = '(' :: text) (hlevels : 0 < levels)
      (hloop : Opening.loop? flags text = some (loop, text')) :
      Calls levels (.atom flags cur) (.opening cur.rest loop text')
  | scan {t t' : Scan} (h : t.Calls t') : Calls levels (.scan t) (.scan t')

/-- What stands inside a group is read. -/
inductive Task.Opens : Task → Task → Prop where
  | capture {flags : Flags} {cur : Cursor} {text rest : List Char} (h : cur.rest = '(' :: text)
      (ho : Opening.read cur.rest flags text = .ok (.capture, rest)) :
      Opens (.atom flags cur) (.expression flags ⟨rest, cur.groups + 1⟩)
  | shy {flags inner : Flags} {cur : Cursor} {text rest : List Char} (h : cur.rest = '(' :: text)
      (ho : Opening.read cur.rest flags text = .ok (.shy inner, rest)) :
      Opens (.atom flags cur) (.expression inner ⟨rest, cur.groups⟩)

/-- The course of a reading of this dialect. -/
def course : Course where
  Task := Task
  rest := Task.rest
  IsAtom := Task.IsAtom
  Delegates := Task.Delegates
  rank := Task.rank
  stops := Task.stops
  Turns := Task.Turns
  Calls := Task.Calls
  Opens := Task.Opens
  close := [')']
  start pattern := .expression ⟨false, false⟩ ⟨pattern, 0⟩

section

variable {levels : Nat} {t t' : Task} {f : Fault} {flags : Flags} {cur : Cursor}
  {text : List Char} {deeper : Option Inside}

/-! ## Turns -/

/-- An expression stops where its branches do. -/
theorem stops_expression (levels : Nat) (flags : Flags) (cur : Cursor) :
    (Task.expression flags cur).stops levels =
      (branches (below levels) levels flags cur).map (·.2.rest) := by
  show ((expression levels).read flags cur).map _ = _
  rw [expression_eq]
  show (alternation (below levels) levels flags cur).map _ = _
  unfold alternation
  cases branches (below levels) levels flags cur <;> rfl

theorem stops_branch (levels : Nat) (flags : Flags) (cur : Cursor) :
    (Task.branch ⟨[], flags⟩ cur).stops levels =
      (branch (below levels) levels flags cur).map (·.2.rest) := by
  show (steps _ _ _ _).map _ = _
  unfold branch
  cases steps (below levels) levels ⟨[], flags⟩ cur <;> rfl

theorem turn_advances (h : Task.Turns levels t t') : Advances t'.rest t.rest := by
  cases h with
  | bar h => exact Advances.suffix_of (.cons _ (List.suffix_refl _)) (branch_suffix h)
  | step _ h => exact (step_advances h).suffix_of (skip_suffix _ _)
  | opening _ => exact .cons _ (List.suffix_refl _)
  | quoted _ => exact .cons _ (List.suffix_refl _)
  | scan h => exact Scan.turn_advances h

/-- A loop that takes a turn stops where it stops after the turn. -/
theorem turn_stops (h : Task.Turns levels t t') : t.stops levels = t'.stops levels := by
  cases h with
  | bar h =>
    rw [stops_expression, stops_expression, branches_of_bar h]
    cases branches (below levels) levels _ _ <;> rfl
  | step hn h =>
    show (steps _ _ _ _).map _ = (steps _ _ _ _).map _
    rw [steps_eq_bind _ hn, h]
    rfl
  | opening h =>
    show (Opening.Loop.read _ _ _).map _ = (Opening.Loop.read _ _ _).map _
    rw [Opening.Loop.read_cons h]
  | @quoted rest c h =>
    show Except.ok (quotation (c :: rest)).2 = Except.ok (quotation rest).2
    conv_lhs => unfold quotation
    split
    · next heq => cases heq
    · next heq => exact absurd heq (h _)
    · next heq =>
      cases heq
      rfl
  | scan h => exact Scan.turn_stops h

/-! ## Calls -/

/-- Between an expression and its first atom no character is taken. -/
theorem call_advances (h : Task.Calls levels t t') :
    Advances t'.rest t.rest ∨ t'.rest <:+ t.rest ∧ t'.rank < t.rank := by
  cases h with
  | branch => exact Or.inr ⟨List.suffix_refl _, Nat.one_lt_two⟩
  | atom _ => exact Or.inr ⟨skip_suffix _ _, Nat.zero_lt_one⟩
  | quantifiers _ h _ => exact Or.inl ((atom_advances h).suffix_of (skip_suffix _ _))
  | @lower flags _ _ text body h =>
    have hbrace : Advances body (skip flags text) := .of_eq_cons h (List.suffix_refl _)
    exact Or.inl (hbrace.suffix_of (skip_suffix _ _))
  | @upper flags _ _ text body rest _ h hn =>
    have hrest := (List.suffix_cons _ _).trans (Bounds.number?_suffix hn)
    have hbrace : Advances rest (skip flags text) := .of_eq_cons h hrest
    exact Or.inl (hbrace.suffix_of (skip_suffix _ _))
  | members h => exact Or.inl (.of_eq_cons h (caret?_suffix _))
  | digits h _ => exact Or.inl (.of_eq_cons h (List.suffix_refl _))
  | quotation h => exact Or.inl (.of_eq_cons h (List.suffix_cons _ _))
  | opening h _ hloop => exact Or.inl (.of_eq_cons h (Opening.loop?_suffix hloop))
  | scan h => exact Scan.call_advances h

theorem addPiece_eq_error_iff {pieces : List Regex} {e : Regex} :
    addPiece levels flags pieces e cur = .error f ↔
      quantified (quantifiers flags) (levels - e.repeatDepth) e cur.rest = .error f := by
  unfold addPiece
  cases quantified (quantifiers flags) (levels - e.repeatDepth) e cur.rest <;> simp

/-- An atom that was read is refused only for the quantifiers behind it. -/
theorem addAtom_eq_error_iff {done : Progress} {a : Atom} :
    addAtom levels done a cur = .error f ↔ ∃ e, done.target? a = some e ∧
      quantified (quantifiers done.flags) (levels - e.repeatDepth) e cur.rest = .error f := by
  cases a with
  | piece e => simp [addAtom, Progress.target?, addPiece_eq_error_iff]
  | quoted text =>
    cases h : text.reverse <;> simp [addAtom, Progress.target?, h, addPiece_eq_error_iff]
  | flags f' => simp [addAtom, Progress.target?]
  | nothing => cases h : done.pieces <;> simp [addAtom, Progress.target?, h, addPiece_eq_error_iff]

theorem readQuantifier?_of_error {body : List Char}
    (h : Bounds.read? ['}'] ('{' :: body) body = .error f) :
    readQuantifier? ('{' :: body) = .error f := by
  simp only [readQuantifier?, h]

theorem quantified_of_bounds_error {budget : Nat} {e : Regex} {body : List Char}
    (hs : skip flags text = '{' :: body) (h : Bounds.read? ['}'] ('{' :: body) body = .error f) :
    quantified (quantifiers flags) budget e text = .error f := by
  apply quantified_of_read?_error
  show readQuantifier? (skip flags text) = _
  rw [hs, readQuantifier?_of_error h]

theorem atom_of_brackets_error (h : cur.rest = '[' :: text)
    (hf : brackets.members cur.rest true (caret? text).2 = .error f) :
    atom deeper flags cur = .error f := by
  rw [h] at hf
  have hread : brackets.read text = .error f := by simp only [BracketGrammar.read, hf]
  have hparen : ¬ '[' = '(' := by decide
  simp only [atom, h, if_neg hparen, if_true, hread]

theorem atom_eq_group (h : cur.rest = '(' :: text) :
    atom deeper flags cur = group deeper flags ⟨text, cur.groups⟩ := by
  unfold atom
  rw [h]
  rfl

theorem atom_of_opening_error {inside : Inside} (h : cur.rest = '(' :: text)
    (hf : Opening.read cur.rest flags text = .error f) :
    atom (some inside) flags cur = .error f := by
  rw [h] at hf
  rw [atom_eq_group h]
  simp only [group, hf]

/-- What a called function refuses, the caller refuses. -/
theorem call_refused (h : Task.Calls levels t t') (hf : t'.stops levels = .error f) :
    t.stops levels = .error f := by
  cases h with
  | branch flags cur =>
    rw [stops_branch] at hf
    rw [stops_expression]
    exact map_eq_error_iff.2 (branches_of_error (map_eq_error_iff.1 hf))
  | atom hn =>
    refine map_eq_error_iff.2 (steps_eq_error _ hn ?_)
    simp only [step, map_eq_error_iff.1 hf]
  | quantifiers hn h he =>
    refine map_eq_error_iff.2 (steps_eq_error _ hn ?_)
    simp only [step, h]
    exact addAtom_eq_error_iff.2 ⟨_, he, map_eq_error_iff.1 hf⟩
  | lower h =>
    refine map_eq_error_iff.2 (quantified_of_bounds_error h ?_)
    exact Bounds.read?_of_number?_error (map_eq_error_iff.1 hf)
  | upper h hn =>
    refine map_eq_error_iff.2 (quantified_of_bounds_error h ?_)
    exact Bounds.read?_of_upper?_error hn (map_eq_error_iff.1 hf)
  | members h => exact map_eq_error_iff.2 (atom_of_brackets_error h (map_eq_error_iff.1 hf))
  | digits _ _ => cases hf
  | quotation _ => cases hf
  | opening h hlevels hloop =>
    obtain ⟨n, rfl⟩ := Nat.exists_eq_succ_of_ne_zero (Nat.ne_of_gt hlevels)
    refine map_eq_error_iff.2 (atom_of_opening_error h ?_)
    rw [Opening.read_eq_loop hloop]
    exact map_eq_error_iff.1 hf
  | scan h => exact Scan.call_refused h hf

/-! ## Groups -/

theorem open_advances (h : t.Opens t') : Advances t'.rest t.rest := by
  cases h with
  | capture h ho => exact .of_eq_cons h (Opening.read_suffix ho)
  | shy h ho => exact .of_eq_cons h (Opening.read_suffix ho)

theorem groupBody_closed (inside : Inside) (whole : List Char) :
    (groupBody inside whole flags cur).map (·.2.rest) =
      Course.closed [')'] whole ((inside.read flags cur).map (·.2.rest)) := by
  unfold groupBody
  split
  · next hread =>
    rw [hread]
    rfl
  · next hread =>
    rw [hread]
    rfl
  · next hne hread =>
    rw [hread]
    exact (Course.closed_of_ne hne).symm

/-- A group stops behind the parenthesis that closes it. -/
theorem open_stops (h : t.Opens t') :
    t.stops (levels + 1) = Course.closed [')'] t.rest (t'.stops levels) := by
  cases h with
  | @capture flags cur text rest h ho =>
    rw [h] at ho
    show (atom (below (levels + 1)) flags cur).map (·.2.rest) = Course.closed [')'] cur.rest _
    rw [atom_eq_group h, h]
    refine Eq.trans ?_ (groupBody_closed (expression levels) ('(' :: text))
    simp only [below, group, ho]
    cases groupBody (expression levels) ('(' :: text) flags ⟨rest, cur.groups + 1⟩ <;> rfl
  | @shy flags inner cur text rest h ho =>
    rw [h] at ho
    show (atom (below (levels + 1)) flags cur).map (·.2.rest) = Course.closed [')'] cur.rest _
    rw [atom_eq_group h, h]
    refine Eq.trans ?_ (groupBody_closed (expression levels) ('(' :: text))
    simp only [below, group, ho]
    cases groupBody (expression levels) ('(' :: text) inner ⟨rest, cur.groups⟩ <;> rfl

/-! ## Delegation -/

/-- What is refused inside is refused outside, and where a loop ends the whole of it does. -/
theorem delegates (h : t.Delegates) :
    ∃ t', (Task.Turns levels t t' ∨ Task.Calls levels t t') ∧ t'.stops levels = t.stops levels := by
  cases t with
  | expression flags cur =>
    rcases hb : branch (below levels) levels flags cur with f | ⟨⟨e, flags'⟩, ⟨rest, groups⟩⟩
    · refine ⟨_, Or.inr (.branch flags cur), ?_⟩
      rw [stops_branch, stops_expression, hb, branches_of_error hb]
      rfl
    · by_cases hbar : ∃ l, rest = '|' :: l
      · obtain ⟨l, rfl⟩ := hbar
        exact ⟨_, Or.inl (.bar hb), (turn_stops (.bar hb)).symm⟩
      · refine ⟨_, Or.inr (.branch flags cur), ?_⟩
        rw [stops_branch, stops_expression, hb, branches_of_not_bar hb (not_exists.1 hbar)]
        rfl
  | branch done cur =>
    rcases hs : step (below levels) levels done (cur.skip done.flags) with f | ⟨done', cur'⟩
    · have hstops : (Task.branch done cur).stops levels = .error f :=
        map_eq_error_iff.2 (steps_eq_error done h hs)
      rcases ha : atom (below levels) done.flags (cur.skip done.flags) with f' | ⟨a, next⟩
      · simp only [step, ha] at hs
        cases hs
        exact ⟨_, Or.inr (.atom h), (map_eq_error_iff.2 ha).trans hstops.symm⟩
      · simp only [step, ha] at hs
        obtain ⟨e, he, hq⟩ := addAtom_eq_error_iff.1 hs
        exact ⟨_, Or.inr (.quantifiers h ha he), (map_eq_error_iff.2 hq).trans hstops.symm⟩
    · exact ⟨_, Or.inl (.step h hs), (turn_stops (.step h hs)).symm⟩
  | _ => exact h.elim

/-! ## The course -/

theorem stops_suffix (h : t.stops levels = .ok text) : text <:+ t.rest := by
  cases t with
  | expression flags cur =>
    obtain ⟨r, hread, rfl⟩ := map_eq_ok_iff.1 h
    exact (expression levels).read_suffix hread
  | branch done cur =>
    obtain ⟨r, hread, rfl⟩ := map_eq_ok_iff.1 h
    exact steps_suffix hread
  | atom flags cur =>
    obtain ⟨r, hread, rfl⟩ := map_eq_ok_iff.1 h
    exact (atom_advances hread).1
  | opening whole loop text =>
    obtain ⟨r, hread, rfl⟩ := map_eq_ok_iff.1 h
    exact Opening.Loop.read_suffix hread
  | quotation text =>
    cases h
    exact quotation_suffix text
  | scan t => exact Scan.stops_suffix h

theorem stops_atom_advances (ht : t.IsAtom) (h : t.stops levels = .ok text) :
    Advances text t.rest := by
  cases t with
  | atom flags cur =>
    obtain ⟨r, hread, rfl⟩ := map_eq_ok_iff.1 h
    exact atom_advances hread
  | scan t => exact Scan.atom_advances ht h
  | _ => exact ht.elim

/-- At most three calls come before a character is taken. -/
theorem rank_le (t : Task) : t.rank ≤ 3 := by
  cases t with
  | scan t => exact (Scan.rank_le t).trans (Nat.le_succ 2)
  | _ => simp [Task.rank]

/-- The reading of PCRE keeps the laws of a course. -/
theorem lawful_course : course.Lawful where
  rest_start := fun _ => rfl
  rank_le := rank_le
  turn_advances := turn_advances
  turn_stops := turn_stops
  call_advances := call_advances
  call_refused := call_refused
  open_advances := open_advances
  open_stops := open_stops
  delegates := delegates
  stops_suffix := stops_suffix
  atom_advances := stops_atom_advances

end

end RegexDialects.Pattern.Pcre
