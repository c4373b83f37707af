import RegexDialects.Proofs.Fragment
import RegexDialects.Proofs.SharedQuantifiers
import RegexDialects.Proofs.SharedReader

/-!
# The shared notation in PCRE

The reader of PCRE reads the shared notation (`reader`). It keeps the pieces of a branch in reverse,
and counts the groups that were opened. No flag is ever set.
-/

set_option autoImplicit false

namespace RegexDialects.Pattern.Pcre

open Shared

/-- Reads from the end of a branch with the tree `e` to the end of the expression. -/
def finish (levels : Nat) (flags : Flags) (e : Regex) (cur : Cursor) :
    Except Fault (List Regex × Cursor) :=
  match cur with
  | ⟨'|' :: rest, groups⟩ =>
    (branches (below levels) levels flags ⟨rest, groups⟩).map fun r => (e :: r.1, r.2)
  | next => .ok ([e], next)

/-- Reads from the middle of a branch, of which the pieces `done` were read, to the end of the
    expression. -/
def readOn (levels : Nat) (done : List Regex) (cur : Cursor) :
    Except Fault (List Regex × Cursor) := do
  let r ← steps (below levels) levels ⟨done.reverse, noFlags⟩ cur
  finish levels r.1.flags (.seq r.1.pieces.reverse) r.2

/-- Behind a bar the other branches are read. -/
theorem finish_bar (levels : Nat) (flags : Flags) (e : Regex) (rest : List Char) (groups : Nat) :
    finish levels flags e ⟨'|' :: rest, groups⟩ =
      (branches (below levels) levels flags ⟨rest, groups⟩).map fun r => (e :: r.1, r.2) := rfl

theorem finish_of_not_bar (levels : Nat) (flags : Flags) (e : Regex) {cur : Cursor}
    (h : ∀ l, cur.rest ≠ '|' :: l) : finish levels flags e cur = .ok ([e], cur) := by
  unfold finish
  split
  · exact absurd rfl (h _)
  · rfl

/-- To read branches is to read one and to go on from its end. -/
theorem branches_eq_finish (levels : Nat) (flags : Flags) (cur : Cursor) :
    branches (below levels) levels flags cur =
      branch (below levels) levels flags cur >>= fun r => finish levels r.1.2 r.1.1 r.2 := by
  cases hb : branch (below levels) levels flags cur with
  | error f => exact branches_of_error hb
  | ok r =>
    obtain ⟨⟨e, flags'⟩, ⟨rest, groups⟩⟩ := r
    simp only [bind, Except.bind]
    by_cases hbar : ∃ l, rest = '|' :: l
    · obtain ⟨l, rfl⟩ := hbar
      rw [branches_of_bar hb, finish_bar]
      cases branches (below levels) levels flags' ⟨l, groups⟩ <;> rfl
    · rw [not_exists] at hbar
      rw [branches_of_not_bar hb hbar, finish_of_not_bar levels flags' e hbar]

/-! ## One step -/

/-- Before its first piece a branch is read as a whole. -/
theorem readOn_start (levels : Nat) (cur : Cursor) :
    readOn levels [] cur = branches (below levels) levels noFlags cur := by
  rw [branches_eq_finish]
  unfold readOn branch
  rw [List.reverse_nil]
  cases steps (below levels) levels ⟨[], noFlags⟩ cur <;> rfl

/-- At the end of a branch its tree is made of the pieces. -/
theorem readOn_of_ends {levels : Nat} {done : List Regex} {cur : Cursor}
    (h : branchEnds cur.rest = true) :
    readOn levels done cur = finish levels noFlags (.seq done) cur := by
  unfold readOn
  rw [steps_of_ends h]
  simp only [bind, Except.bind, List.reverse_reverse]

theorem readOn_of_step_error {levels : Nat} {done : List Regex} {cur : Cursor} {f : Fault}
    (hn : branchEnds cur.rest = false)
    (h : step (below levels) levels ⟨done.reverse, noFlags⟩ cur = .error f) :
    (readOn levels done cur).mapError Fault.kind = .error f.kind := by
  unfold readOn
  rw [steps_of_step_error hn h]
  rfl

/-- A branch goes on behind an atom and its quantifier, if both are accepted. -/
theorem readOn_of_atom {levels : Nat} (done : List Regex) {cur : Cursor}
    {r : Except ParseErrorKind Regex} {text : List Char} (groups : Nat) (q : Option Quantity)
    (hs : Starts cur.rest) (ht : NoQuantifier text)
    (h : (atom (below levels) noFlags cur).mapError Fault.kind =
      r.map fun e => (.piece e, ⟨quantityText .pcre q ++ text, groups⟩)) :
    (readOn levels done cur).mapError Fault.kind =
      r >>= fun e => quantify (levels - e.repeatDepth) e q >>= fun e =>
        (readOn levels (done ++ [e]) ⟨text, groups⟩).mapError Fault.kind := by
  cases r with
  | error kind =>
    obtain ⟨f, hatom, rfl⟩ := mapError_eq_error_iff.1 h
    refine readOn_of_step_error hs.not_ends ?_
    unfold step
    rw [hatom]
  | ok e =>
    have hatom := mapError_eq_ok_iff.1 h
    have hq := readsQuantities_pcre.quantified_eq (levels - e.repeatDepth) e q ht
    have hstep := step_of_atom levels done.reverse hatom
    simp only [bind, Except.bind]
    cases hr : quantify (levels - e.repeatDepth) e q with
    | error kind =>
      rw [hr] at hq
      obtain ⟨f, hf, rfl⟩ := mapError_eq_error_iff.1 hq
      rw [hf] at hstep
      exact readOn_of_step_error hs.not_ends hstep
    | ok e' =>
      rw [hr] at hq
      rw [mapError_eq_ok_iff.1 hq] at hstep
      unfold readOn
      rw [steps_of_step_ok hs.not_ends hstep]
      simp only [List.reverse_append, List.reverse_singleton, List.singleton_append]

/-! ## Atoms -/

theorem isSpecial_of_isAlpha {c : Char} (h : c.isAlpha = true) :
    Form.Pcre.isSpecial c = false := by
  have hall : ∀ l : List Char, (l.all fun x => !x.isAlpha) = true → c ∉ l := by
    intro l hl hmem
    have hc := List.all_eq_true.1 hl c hmem
    simp only [h, Bool.not_true, Bool.false_eq_true] at hc
  unfold Form.Pcre.isSpecial
  rw [List.contains_eq_mem, decide_eq_false_iff_not]
  exact hall _ rfl

/-- What the shared notation has for one character or position is the beginning of an atom. -/
theorem starts_leaf (a : Leaf) (rest : List Char) : Starts (a.text ++ rest) := by
  cases a with
  | letter c hc => exact starts_plain (isSpecial_of_isAlpha hc) rest
  | dot => exact starts_cons rfl rest
  | escape x => exact starts_backslash _
  | bracket b => exact starts_bracket _

/-- It is read as the tree that it has in both dialects. -/
theorem atom_leaf (deeper : Option Inside) (a : Leaf) (rest : List Char) (groups : Nat) :
    atom deeper noFlags ⟨a.text ++ rest, groups⟩ = .ok (.piece a.tree, ⟨rest, groups⟩) := by
  cases a with
  | letter c hc => exact atom_plain deeper noFlags groups (isSpecial_of_isAlpha hc) rest
  | dot => rfl
  | escape x => cases x <;> rfl
  | bracket b =>
    have hbody : brackets.read b.body = .ok (b.tree, []) := b.shared.read_eq.symm.trans b.read_eq
    exact atom_bracket (BracketGrammar.read_append (b.shared.localIn_pcre rest) hbody)

/-! ## Groups -/

theorem read_expression (levels : Nat) (flags : Flags) (cur : Cursor) :
    (expression levels).read flags cur =
      (branches (below levels) levels flags cur).map fun r => (.alt r.1, r.2) := by
  rw [expression_eq]
  show alternation (below levels) levels flags cur = _
  unfold alternation
  cases branches (below levels) levels flags cur <;> rfl

/-- Reads the body of a group that opens as `capturing` says. -/
theorem atom_opening (levels groups : Nat) (capturing : Bool) {inner : List Char}
    (hn : NoQuantifier inner) :
    ∃ whole, atom (below (levels + 1)) noFlags ⟨opening .pcre capturing ++ inner, groups⟩ =
      (groupBody (expression levels) whole noFlags ⟨inner, groups + capturing.toNat⟩).map
        fun r => (.piece (wrap capturing r.1), r.2) := by
  cases capturing with
  | false =>
    refine ⟨'(' :: '?' :: ':' :: inner, ?_⟩
    show group (some (expression levels)) noFlags ⟨'?' :: ':' :: inner, groups⟩ = _
    have hopen : ∀ whole, Opening.read whole noFlags ('?' :: ':' :: inner) =
      .ok (.shy noFlags, inner) := fun _ => rfl
    simp only [group, hopen]
    show _ = (groupBody _ _ noFlags ⟨inner, groups⟩).map _
    cases groupBody (expression levels) ('(' :: '?' :: ':' :: inner) noFlags ⟨inner, groups⟩ <;> rfl
  | true =>
    refine ⟨'(' :: inner, ?_⟩
    show group (some (expression levels)) noFlags ⟨inner, groups⟩ = _
    -- A body that begins with no quantifier cannot be taken for what else a parenthesis may open.
    have hopen : ∀ c ∈ inner.head?, c ≠ '*' ∧ c ≠ '?' := by
      intro c hc
      have hq := (hn.follows c hc).1
      constructor <;> rintro rfl <;> cases hq
    simp only [group, read_capture hopen]
    show _ = (groupBody _ _ noFlags ⟨inner, groups + 1⟩).map _
    cases groupBody (expression levels) ('(' :: inner) noFlags ⟨inner, groups + 1⟩ <;> rfl

/-- Without a level left a group is refused, whatever stands in it. -/
theorem atom_opening_zero (groups : Nat) (capturing : Bool) (inner : List Char) :
    (atom (below 0) noFlags ⟨opening .pcre capturing ++ inner, groups⟩).mapError Fault.kind =
      .error .tooDeep := rfl

/-- A group is an atom, if what stands in it is accepted. -/
theorem atom_group {levels groups last : Nat} (capturing : Bool) {inner text : List Char}
    {l : Except ParseErrorKind (List Regex)} (hn : NoQuantifier inner)
    (h : (branches (below levels) levels noFlags ⟨inner, groups + capturing.toNat⟩).mapError
      Fault.kind = l.map fun l => (l, ⟨mark .pcre ++ ')' :: text, last⟩)) :
    (atom (below (levels + 1)) noFlags ⟨opening .pcre capturing ++ inner, groups⟩).mapError
        Fault.kind =
      (l.map fun l => wrap capturing (.alt l)).map fun e => (.piece e, ⟨text, last⟩) := by
  obtain ⟨whole, hatom⟩ := atom_opening levels groups capturing hn
  rw [hatom]
  simp only [groupBody, read_expression]
  cases l with
  | error cause =>
    obtain ⟨f, hb, rfl⟩ := mapError_eq_error_iff.1 h
    rw [hb]
    rfl
  | ok l =>
    rw [mapError_eq_ok_iff.1 h]
    rfl

/-! ## The reader -/

theorem branchEnds_of_closes {text : List Char} (h : Closes .pcre text) :
    branchEnds text = true := by
  rcases h with rfl | ⟨l, rfl⟩ <;> rfl

theorem not_bar_of_closes {text : List Char} (h : Closes .pcre text) (l : List Char) :
    text ≠ '|' :: l := by
  rcases h with rfl | ⟨l, rfl⟩ <;> rintro ⟨⟩

theorem starts_opening (capturing : Bool) (rest : List Char) :
    Starts (opening .pcre capturing ++ rest) :=
  starts_paren _

/-- Reading PCRE, as far as the shared notation goes. -/
def reader : Reader .pcre where
  Place := Cursor
  place n text := ⟨text, n⟩
  run levels _ done cur := (readOn levels done cur).mapError Fault.kind
  closed := by
    intro levels _ done n text h
    rw [readOn_of_ends (branchEnds_of_closes h), finish_of_not_bar _ _ _ (not_bar_of_closes h)]
    rfl
  bar := by
    intro levels _ done n text
    rw [readOn_of_ends rfl]
    show (finish levels noFlags (.seq done) ⟨'|' :: text, n⟩).mapError Fault.kind = _
    rw [finish_bar, readOn_start]
    cases branches (below levels) levels noFlags ⟨text, n⟩ <;> rfl
  leaf := by
    intro levels _ done n a q text ht
    exact readOn_of_atom (r := .ok a.tree) done _ q (starts_leaf a _) ht
      (congrArg (Except.mapError Fault.kind) (atom_leaf (below levels) a _ n))
  tooDeep := by
    intro _ done n capturing text
    exact readOn_of_atom (r := .error .tooDeep) done n none
      (starts_opening capturing text) noQuantifier_nil (atom_opening_zero n capturing text)
  group := by
    intro levels _ done n m capturing q inner text l hn ht h
    rw [readOn_start] at h
    refine (readOn_of_atom done _ q (starts_opening capturing inner) ht
      (atom_group capturing hn h)).trans ?_
    cases l <;> rfl

/-- A pattern of the shared notation is read as its tree, or refused for the same reason. -/
theorem parse_text (x : Expression) :
    (parse (x.text .pcre)).mapError ParseError.kind = x.tree := by
  have hrun : (readOn maxDepth [] ⟨x.text .pcre, 0⟩).mapError Fault.kind =
      (x.branches maxDepth []).map fun l => (l, ⟨[], 0 + x.captures⟩) := by
    have hrun := reader.run_text x maxDepth true [] 0 (Or.inl rfl)
    rwa [List.append_nil] at hrun
  rw [readOn_start] at hrun
  unfold parse Expression.tree
  rw [read_expression]
  cases hx : x.branches maxDepth [] with
  | error kind =>
    rw [hx] at hrun
    obtain ⟨f, hf, rfl⟩ := mapError_eq_error_iff.1 hrun
    rw [hf]
    rfl
  | ok l =>
    rw [hx] at hrun
    rw [mapError_eq_ok_iff.1 hrun]
    rfl

end RegexDialects.Pattern.Pcre
