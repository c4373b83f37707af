import RegexDialects.Proofs.EmacsAssembly
import RegexDialects.Proofs.SharedQuantifiers
import RegexDialects.Proofs.SharedReader

/-!
# The shared notation in Emacs patterns

The reader of Emacs patterns reads the shared notation (`reader`). Whether a branch starts matters
for a `^` only; the shared notation has none. Nor has it groups with a number of their own, so there
is always a number left for the next group.
-/

set_option autoImplicit false

namespace RegexDialects.Pattern.Emacs

open Shared

/-- Reads from the end of a branch with the tree `e` to the end of the expression. -/
def finish (levels : Nat) (e : Regex) (cur : Cursor) : Except Fault (List Regex × Cursor) :=
  match cur with
  | ⟨'\\' :: '|' :: rest, groups⟩ =>
    (branches (below levels) levels ⟨rest, groups⟩).map fun r => (e :: r.1, r.2)
  | next => .ok ([e], next)

/-- Reads from the middle of a branch, of which the pieces `done` were read, to the end of the
    expression. -/
def readOn (levels : Nat) (atStart : Bool) (done : List Regex) (cur : Cursor) :
    Except Fault (List Regex × Cursor) := do
  let r ← pieces (below levels) levels atStart cur
  finish levels (.seq (done ++ r.1)) r.2

theorem finish_bar (levels : Nat) (e : Regex) (rest : List Char) (groups : Numbering) :
    finish levels e ⟨'\\' :: '|' :: rest, groups⟩ =
      (branches (below levels) levels ⟨rest, groups⟩).map fun r => (e :: r.1, r.2) := rfl

theorem finish_of_not_bar (levels : Nat) (e : Regex) {cur : Cursor}
    (h : ∀ l, cur.rest ≠ '\\' :: '|' :: l) : finish levels e cur = .ok ([e], cur) := by
  unfold finish
  split
  · exact absurd rfl (h _)
  · rfl

theorem branches_eq_finish (levels : Nat) (cur : Cursor) :
    branches (below levels) levels cur =
      branch (below levels) levels cur >>= fun r => finish levels r.1 r.2 := by
  rw [branches_eq]
  cases branch (below levels) levels cur with
  | error f => rfl
  | ok r =>
    simp only [bind, Except.bind]
    split
    · next heq => cases heq
    · next rest groups heq =>
      cases heq
      rw [finish_bar]
      cases branches (below levels) levels ⟨rest, groups⟩ <;> rfl
    · next hn heq =>
      cases heq
      rw [finish_of_not_bar]
      intro l heq
      exact hn l _ (congrArg (Cursor.mk · _) heq)

/-! ## One step -/

theorem readOn_start (levels : Nat) (cur : Cursor) :
    readOn levels true [] cur = branches (below levels) levels cur := by
  rw [branches_eq_finish]
  unfold readOn branch
  cases pieces (below levels) levels true cur <;> rfl

theorem readOn_of_ends {levels : Nat} {atStart : Bool} {done : List Regex} {cur : Cursor}
    (h : branchEnds cur.rest = true) :
    readOn levels atStart done cur = finish levels (.seq done) cur := by
  unfold readOn
  rw [pieces_eq, if_pos h]
  simp only [bind, Except.bind, List.append_nil]

/-- A branch goes on behind a piece. -/
theorem readOn_of_piece {levels : Nat} {atStart : Bool} (done : List Regex) {cur : Cursor}
    (h : branchEnds cur.rest = false) :
    readOn levels atStart done cur =
      piece (below levels) levels atStart cur >>= fun r =>
        readOn levels false (done ++ [r.1]) r.2 := by
  unfold readOn
  rw [pieces_eq, h]
  cases piece (below levels) levels atStart cur with
  | error f => rfl
  | ok r =>
    simp only [bind, Except.bind, Bool.false_eq_true, if_false]
    cases pieces (below levels) levels false r.2 with
    | error f => rfl
    | ok p => simp only [List.append_assoc, List.singleton_append]

/-- A piece is an atom and its quantifiers, unless it is a `^`. -/
theorem piece_of_ne {deeper : Option Inside} {levels : Nat} (atStart : Bool) {cur : Cursor}
    (h : ∀ l, cur.rest ≠ '^' :: l) :
    piece deeper levels atStart cur =
      atom deeper cur >>= fun r =>
        r.2.resume (quantified quantifiers (levels - r.1.repeatDepth) r.1 r.2.rest) := by
  unfold piece
  split
  · next heq => exact absurd heq (h _)
  · cases atom deeper cur <;> rfl

/-! ## Atoms -/

/-- Whether `text` begins like an atom of the shared notation. -/
structure Starts (text : List Char) : Prop where
  not_ends : branchEnds text = false
  no_caret : ∀ l, text ≠ '^' :: l

/-- A branch goes on behind an atom and its quantifier, if both are accepted. -/
theorem readOn_of_atom {levels : Nat} (atStart : Bool) (done : List Regex) {cur : Cursor}
    {r : Except ParseErrorKind Regex} {text : List Char} (groups : Numbering) (q : Option Quantity)
    (hs : Starts cur.rest) (ht : NoQuantifier text)
    (h : (atom (below levels) cur).mapError Fault.kind =
      r.map fun e => (e, ⟨quantityText .emacs q ++ text, groups⟩)) :
    (readOn levels atStart done cur).mapError Fault.kind =
      r >>= fun e => quantify (levels - e.repeatDepth) e q >>= fun e =>
        (readOn levels false (done ++ [e]) ⟨text, groups⟩).mapError Fault.kind := by
  rw [readOn_of_piece done hs.not_ends, piece_of_ne atStart hs.no_caret]
  cases r with
  | error kind =>
    obtain ⟨f, hatom, rfl⟩ := mapError_eq_error_iff.1 h
    rw [hatom]
    rfl
  | ok e =>
    have hq := readsQuantities_emacs.quantified_eq (levels - e.repeatDepth) e q ht
    rw [mapError_eq_ok_iff.1 h]
    simp only [bind, Except.bind]
    cases hr : quantify (levels - e.repeatDepth) e q with
    | error kind =>
      rw [hr] at hq
      obtain ⟨f, hf, rfl⟩ := mapError_eq_error_iff.1 hq
      rw [hf]
      rfl
    | ok e' =>
      rw [hr] at hq
      rw [mapError_eq_ok_iff.1 hq]
      rfl

theorem branchEnds_of_ne {c : Char} (h : c ≠ '\\') (rest : List Char) :
    branchEnds (c :: rest) = false := by
  unfold branchEnds
  split
  · next heq => cases heq
  · next heq => exact absurd (List.cons.inj heq).1 h
  · next heq => exact absurd (List.cons.inj heq).1 h
  · rfl

theorem starts_leaf (a : Leaf) (rest : List Char) : Starts (a.text ++ rest) := by
  cases a with
  | letter c hc =>
    constructor
    · apply branchEnds_of_ne
      rintro rfl
      cases hc
    · intro l heq
      rw [(List.cons.inj heq).1] at hc
      cases hc
  | dot => exact ⟨rfl, nofun⟩
  | escape x => cases x <;> exact ⟨rfl, nofun⟩
  | bracket b => exact ⟨rfl, nofun⟩

/-- A character that is an operator nowhere in a branch stands for itself. -/
theorem atom_plain {deeper : Option Inside} {c : Char} {rest : List Char} {groups : Numbering}
    (hslash : c ≠ '\\') (hbracket : c ≠ '[') (hdot : c ≠ '.') (hdollar : c ≠ '$') :
    atom deeper ⟨c :: rest, groups⟩ = .ok (.literal [c], ⟨rest, groups⟩) := by
  unfold atom
  split
  · next heq => cases heq
  · next heq => exact absurd (List.cons.inj heq).1 hslash
  · next heq => exact absurd (List.cons.inj heq).1 hslash
  · next heq => exact absurd (List.cons.inj heq).1 hbracket
  · next heq => exact absurd (List.cons.inj heq).1 hdot
  · next heq => exact absurd (List.cons.inj heq).1 hdollar
  · next heq =>
    cases heq
    rfl

theorem atom_letter {deeper : Option Inside} {c : Char} (hc : c.isAlpha = true) (rest : List Char)
    (groups : Numbering) :
    atom deeper ⟨c :: rest, groups⟩ = .ok (.literal [c], ⟨rest, groups⟩) := by
  have hne : ∀ x : Char, x.isAlpha = false → c ≠ x := by
    rintro x hx rfl
    cases hx.symm.trans hc
  exact atom_plain (hne _ rfl) (hne _ rfl) (hne _ rfl) (hne _ rfl)

/-- A backslash escapes what is behind it, unless that opens a group. -/
theorem atom_escape {deeper : Option Inside} {c : Char} {rest : List Char} {groups : Numbering}
    (h : c ≠ '(') :
    atom deeper ⟨'\\' :: c :: rest, groups⟩ =
      Cursor.resume ⟨'\\' :: c :: rest, groups⟩ (escape groups.highest (c :: rest)) := by
  unfold atom
  split
  · next heq => cases heq
  · next heq => exact absurd (List.cons.inj (List.cons.inj heq).2).1 h
  · next heq =>
    cases heq
    rfl
  · next heq => cases heq
  · next heq => cases heq
  · next heq => cases heq
  · next hn _ _ _ heq =>
    cases heq
    exact absurd rfl hn

theorem atom_leaf (deeper : Option Inside) (a : Leaf) (rest : List Char) (groups : Numbering) :
    atom deeper ⟨a.text ++ rest, groups⟩ = .ok (a.tree, ⟨rest, groups⟩) := by
  cases a with
  | letter c hc => exact atom_letter hc rest groups
  | dot => rfl
  | escape x => cases x <;> rfl
  | bracket b =>
    have hread := BracketGrammar.read_append (localIn_emacs b.body rest) b.read_eq
    show Cursor.resume _ (brackets.read (b.body ++ rest)) = _
    rw [hread]
    rfl

/-! ## Groups -/

/-- Without a `?` a group gets the next number. -/
theorem GroupKind.read_implicit {text : List Char} (h : ∀ c ∈ text.head?, c ≠ '?')
    (whole : List Char) : GroupKind.read whole text = .ok (.implicit, text) := by
  unfold GroupKind.read
  split
  · exact absurd rfl (h _ rfl)
  · exact absurd rfl (h _ rfl)
  · rfl

/-- The sort of a group in the shared notation. -/
def kindOf (capturing : Bool) : GroupKind :=
  if capturing then .implicit else .shy

/-- A group that captures must not begin with what could be taken for its sort. -/
theorem read_opening {capturing : Bool} {inner : List Char}
    (h : capturing = true → ∀ c ∈ inner.head?, c ≠ '?') (whole : List Char) :
    GroupKind.read whole ((if capturing then [] else ['?', ':']) ++ inner) =
      .ok (kindOf capturing, inner) := by
  cases capturing with
  | false => rfl
  | true => exact GroupKind.read_implicit (h rfl) whole

theorem head_ne_of_noQuantifier {text : List Char} (h : NoQuantifier text) :
    ∀ c ∈ text.head?, c ≠ '?' := by
  rintro c hc rfl
  cases (h.follows '?' hc).1

/-- The numbers behind `n` groups that had none of their own. -/
def counted (n : Nat) : Numbering :=
  ⟨n, false⟩

theorem next?_counted (n : Nat) (capturing : Bool) :
    (counted n).next? (kindOf capturing) = some (counted (n + capturing.toNat)) := by
  cases capturing <;> rfl

theorem atom_opening_zero (groups : Numbering) (capturing : Bool) (inner : List Char) :
    (atom (below 0) ⟨opening .emacs capturing ++ inner, groups⟩).mapError Fault.kind =
      .error .tooDeep := rfl

/-- A group is read at the level below, if there is a number for it. -/
theorem atom_opening (levels : Nat) {groups start : Numbering} {capturing : Bool}
    {inner : List Char} (hn : capturing = true → ∀ c ∈ inner.head?, c ≠ '?')
    (hnext : groups.next? (kindOf capturing) = some start) :
    ∃ whole, atom (below (levels + 1)) ⟨opening .emacs capturing ++ inner, groups⟩ =
      match (expression levels).read ⟨inner, start⟩ with
      | .error f => .error f
      | .ok (e, ⟨'\\' :: ')' :: rest, last⟩) => .ok (wrap capturing e, ⟨rest, last⟩)
      | .ok (_, ⟨rest, _⟩) => .error ⟨.unmatchedParen, whole, rest⟩ := by
  refine ⟨opening .emacs capturing ++ inner, ?_⟩
  have hopen : openGroup (opening .emacs capturing ++ inner)
      ⟨(if capturing then [] else ['?', ':']) ++ inner, groups⟩ =
        .ok (kindOf capturing, ⟨inner, start⟩) :=
    openGroup_eq_ok_iff.2 ⟨read_opening hn _, hnext⟩
  show group (some (expression levels))
    ⟨(if capturing then [] else ['?', ':']) ++ inner, groups⟩ = _
  simp only [group]
  rw [show '\\' :: '(' :: ((if capturing then [] else ['?', ':']) ++ inner) =
    opening .emacs capturing ++ inner from rfl, hopen]
  cases capturing <;> rfl

theorem read_expression (levels : Nat) (cur : Cursor) :
    (expression levels).read cur =
      (branches (below levels) levels cur).map fun r => (.alt r.1, r.2) := by
  rw [expression_eq]
  show alternation (below levels) levels cur = _
  unfold alternation
  cases branches (below levels) levels cur <;> rfl

/-- A group is an atom, if what stands in it is accepted. -/
theorem atom_group {levels : Nat} {groups start last : Numbering} {capturing : Bool}
    {inner text : List Char} {l : Except ParseErrorKind (List Regex)} (hn : NoQuantifier inner)
    (hnext : groups.next? (kindOf capturing) = some start)
    (h : (branches (below levels) levels ⟨inner, start⟩).mapError Fault.kind =
      l.map fun l => (l, ⟨mark .emacs ++ ')' :: text, last⟩)) :
    (atom (below (levels + 1)) ⟨opening .emacs capturing ++ inner, groups⟩).mapError Fault.kind =
      (l.map fun l => wrap capturing (.alt l)).map fun e => (e, ⟨text, last⟩) := by
  obtain ⟨whole, hatom⟩ := atom_opening levels (fun _ => head_ne_of_noQuantifier hn) hnext
  rw [hatom, read_expression]
  cases l with
  | error cause =>
    obtain ⟨f, hb, rfl⟩ := mapError_eq_error_iff.1 h
    rw [hb]
    rfl
  | ok l =>
    rw [mapError_eq_ok_iff.1 h]
    rfl

/-! ## The reader -/

theorem branchEnds_of_closes {text : List Char} (h : Closes .emacs text) :
    branchEnds text = true := by
  rcases h with rfl | ⟨l, rfl⟩ <;> rfl

theorem not_bar_of_closes {text : List Char} (h : Closes .emacs text) (l : List Char) :
    text ≠ '\\' :: '|' :: l := by
  rcases h with rfl | ⟨l, rfl⟩ <;> rintro ⟨⟩

theorem starts_opening (capturing : Bool) (rest : List Char) :
    Starts (opening .emacs capturing ++ rest) := by
  cases capturing <;> exact ⟨rfl, nofun⟩

/-- Reading Emacs patterns, as far as the shared notation goes. -/
def reader : Reader .emacs where
  Place := Cursor
  place n text := ⟨text, counted n⟩
  run levels atStart done cur := (readOn levels atStart done cur).mapError Fault.kind
  closed := by
    intro levels atStart done n text h
    rw [readOn_of_ends (branchEnds_of_closes h), finish_of_not_bar _ _ (not_bar_of_closes h)]
    rfl
  bar := by
    intro levels atStart done n text
    rw [readOn_of_ends rfl]
    show (finish levels (.seq done) ⟨'\\' :: '|' :: text, counted n⟩).mapError Fault.kind = _
    rw [finish_bar, readOn_start]
    cases branches (below levels) levels ⟨text, counted n⟩ <;> rfl
  leaf := by
    intro levels atStart done n a q text ht
    exact readOn_of_atom (r := .ok a.tree) atStart done _ q (starts_leaf a _) ht
      (congrArg (Except.mapError Fault.kind) (atom_leaf (below levels) a _ (counted n)))
  tooDeep := by
    intro atStart done n capturing text
    exact readOn_of_atom (r := .error .tooDeep) atStart done (counted n) none
      (starts_opening capturing text) noQuantifier_nil (atom_opening_zero _ capturing text)
  group := by
    intro levels atStart done n m capturing q inner text l hn ht h
    rw [readOn_start] at h
    refine (readOn_of_atom atStart done _ q (starts_opening capturing inner) ht
      (atom_group hn (next?_counted n capturing) h)).trans ?_
    cases l <;> rfl

/-- A pattern of the shared notation is read as its tree, or refused for the same reason. -/
theorem parse_text (x : Expression) :
    (parse (x.text .emacs)).mapError ParseError.kind = x.tree := by
  have hrun : (readOn maxDepth true [] ⟨x.text .emacs, 0⟩).mapError Fault.kind =
      (x.branches maxDepth []).map fun l => (l, ⟨[], counted (0 + x.captures)⟩) := by
    have hrun := reader.run_text x maxDepth true [] 0 (Or.inl rfl)
    rwa [List.append_nil] at hrun
  rw [readOn_start] at hrun
  unfold parse Expression.tree
  rw [read_expression]
  cases hx : x.branches maxDepth [] with
  | error kind =>
    rw [hx] at hrun
    obtain ⟨f, hf, rfl⟩ := mapError_eq_error_iff.1 hrun
    rw [hf]
    rfl
  | ok l =>
    rw [hx] at hrun
    rw [mapError_eq_ok_iff.1 hrun]
    rfl

end RegexDialects.Pattern.Emacs
