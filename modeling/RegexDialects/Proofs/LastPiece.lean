import RegexDialects.Proofs.SharedPcre
import RegexDialects.Proofs.TwoRuns

/-!
# The last piece of a pattern

The reader of a pattern goes from place to place (`Place`), by steps and across the bars between
branches (`Reaches`), and what it returns in the end can be told from any of the places on its way.
With more text behind the pattern it goes the same way, up to its last piece (`Reaches.append`), and
the last piece is the same atom, unless it is an escape that might go on (`LastPiece.read_append`).
What changes is what the reader finds behind it.
-/

set_option autoImplicit false

namespace RegexDialects.Pattern.Pcre

open Regex

variable {levels : Nat} {after : List Char}

/-! ## Places -/

/-- A place in the reading of an expression: the branches that are complete, the branch so far, and
    where the reader is. -/
structure Place where
  before : List Regex
  done : Progress
  cur : Cursor

/-- Where the reading of a pattern starts. -/
def Place.start (text : List Char) : Place :=
  ⟨[], ⟨[], noFlags⟩, ⟨text, 0⟩⟩

/-- Reads on to the end of the expression. -/
def Place.readOn (levels : Nat) (p : Place) : Except Fault (List Regex × Cursor) := do
  let r ← steps (below levels) levels p.done p.cur
  let x ← finish levels r.1.flags (.seq r.1.pieces.reverse) r.2
  return (p.before ++ x.1, x.2)

theorem Place.readOn_start (text : List Char) :
    (Place.start text).readOn levels = branches (below levels) levels noFlags ⟨text, 0⟩ := by
  rw [branches_eq_finish]
  unfold Place.readOn Place.start branch
  cases steps (below levels) levels ⟨[], noFlags⟩ ⟨text, 0⟩ with
  | error f => rfl
  | ok r =>
    simp only [bind, Except.bind, List.nil_append]
    cases finish levels r.1.flags (.seq r.1.pieces.reverse) r.2 <;> rfl

/-- Behind an atom that is a piece, quantifiers follow, and then the rest of the expression. -/
theorem Place.readOn_of_piece (p : Place) {e : Regex} {next : Cursor}
    (hn : branchEnds (p.cur.skip p.done.flags).rest = false)
    (h : atom (below levels) p.done.flags (p.cur.skip p.done.flags) = .ok (.piece e, next)) :
    p.readOn levels = addPiece levels p.done.flags p.done.pieces e next >>= fun r =>
      Place.readOn levels ⟨p.before, r.1, r.2⟩ := by
  unfold Place.readOn
  rw [steps_eq_bind p.done hn]
  unfold step
  rw [h]
  simp only [addAtom]
  cases addPiece levels p.done.flags p.done.pieces e next <;> rfl

/-- The reader comes from one place to another: by a step, or across a bar. -/
inductive Reaches (levels : Nat) : Place → Place → Prop
  | refl (p : Place) : Reaches levels p p
  | step {before : List Regex} {done done' : Progress} {cur next : Cursor} {p : Place}
      (hn : branchEnds (cur.skip done.flags).rest = false)
      (h : step (below levels) levels done (cur.skip done.flags) = .ok (done', next)) :
      Reaches levels ⟨before, done', next⟩ p → Reaches levels ⟨before, done, cur⟩ p
  | bar {before : List Regex} {done : Progress} {cur : Cursor} {rest : List Char} {p : Place}
      (h : (cur.skip done.flags).rest = '|' :: rest) :
      Reaches levels
          ⟨before ++ [.seq done.pieces.reverse], ⟨[], done.flags⟩, ⟨rest, cur.groups⟩⟩ p →
        Reaches levels ⟨before, done, cur⟩ p

/-- What is read in the end does not change on the way. -/
theorem Reaches.readOn_eq {p q : Place} (h : Reaches levels p q) :
    p.readOn levels = q.readOn levels := by
  induction h with
  | refl p => rfl
  | step hn h _ ih =>
    rw [← ih]
    unfold Place.readOn
    rw [steps_eq_bind _ hn, h]
    rfl
  | @bar before done cur rest p h _ ih =>
    rw [← ih]
    have hcur : cur.skip done.flags = ⟨'|' :: rest, cur.groups⟩ :=
      congrArg (Cursor.mk · cur.groups) h
    have hends : steps (Pcre.below levels) levels done cur =
        .ok (done, ⟨'|' :: rest, cur.groups⟩) := by
      rw [steps_eq_ok done (by rw [hcur]; rfl), hcur]
    unfold Place.readOn
    rw [hends]
    simp only [bind, Except.bind, finish_bar, branch,
      branches_eq_finish levels done.flags ⟨rest, cur.groups⟩]
    cases steps (Pcre.below levels) levels ⟨[], done.flags⟩ ⟨rest, cur.groups⟩ with
    | error f => rfl
    | ok r =>
      simp only
      cases finish levels r.1.flags (.seq r.1.pieces.reverse) r.2 with
      | error f => rfl
      | ok x => simp [Except.map, pure, Except.pure]

theorem Reaches.suffix {p q : Place} (h : Reaches levels p q) : q.cur.rest <:+ p.cur.rest := by
  induction h with
  | refl p => exact List.suffix_refl _
  | step _ h _ ih => exact ih.trans ((step_advances h).1.trans (skip_suffix _ _))
  | bar h _ ih => exact ih.trans ((List.suffix_cons '|' _).trans (h ▸ skip_suffix _ _))

/-! ## More text behind -/

/-- The same place with more text behind the rest. -/
def Cursor.append (cur : Cursor) (after : List Char) : Cursor :=
  { cur with rest := cur.rest ++ after }

theorem shifted_append {cur : Cursor} (hp : Plain cur.rest) :
    Shifted False after cur (cur.append after) :=
  ⟨rfl, hp, Or.inl rfl⟩

theorem Shifted.eq_append {cur cur' : Cursor} (h : Shifted False after cur cur') :
    cur' = cur.append after := by
  obtain ⟨rest, groups⟩ := cur'
  obtain ⟨hrest, -, hgroups | ⟨hloose, -⟩⟩ := h
  · cases hrest
    cases hgroups
    rfl
  · exact hloose.elim

/-- A repetition that is not loose is the same reading. -/
theorem Repeats.eq_ok {α : Type} {r : Except Fault (α × Cursor)} {a : α} {next : Cursor}
    (h : Repeats False after r a next) : r = .ok (a, next.append after) := by
  rcases h with ⟨hloose, -⟩ | ⟨next', heq, hnext⟩
  · exact hloose.elim
  · rw [heq, hnext.eq_append]

theorem repeatedBelow_self (hends : EndsBounds after) (levels : Nat) :
    RepeatedBelow False after (below levels) (below levels) := by
  intro i hi
  cases levels with
  | zero => cases hi
  | succ levels =>
    cases hi
    refine ⟨nofun, ?_⟩
    rintro i' ⟨⟩
    exact repeats_expression hends fun hlt => (Nat.lt_irrefl levels hlt).elim

theorem separated_of_ne_nil {rest : List Char} (h : rest ≠ []) : Separated rest after :=
  fun hnil => absurd hnil h

theorem skip_append_of_ne_nil (after : List Char) {cur : Cursor} {flags : Flags}
    (hp : Plain cur.rest) (hne : (cur.skip flags).rest ≠ []) :
    (cur.append after).skip flags = (cur.skip flags).append after :=
  ((shifted_append hp).skip (separated_of_ne_nil hne)).eq_append

theorem Plain.skip {cur : Cursor} (h : Plain cur.rest) (flags : Flags) :
    Plain (cur.skip flags).rest :=
  h.of_suffix (skip_suffix flags cur.rest)

/-- The reader goes the same way with more text behind, as long as it has not come to the end. -/
theorem Reaches.append (hends : EndsBounds after) {p q : Place} (h : Reaches levels p q)
    (hp : Plain p.cur.rest) (hne : q.cur.rest ≠ []) :
    Reaches levels { p with cur := p.cur.append after } { q with cur := q.cur.append after } := by
  induction h with
  | refl p => exact .refl _
  | @step before done done' cur next q hn h hr ih =>
    have hskip : (cur.skip done.flags).rest ≠ [] := by
      intro hnil
      rw [hnil] at hn
      cases hn
    have hnext : next.rest ≠ [] := fun hnil => hne (List.suffix_nil.1 (hnil ▸ hr.suffix))
    have hcur := skip_append_of_ne_nil after hp hskip
    have hstep := (repeats_step hends (repeatedBelow_self hends levels)
      (fun hlt => (Nat.lt_irrefl levels hlt).elim) (shifted_append (hp.skip done.flags))
      (separated_of_ne_nil hnext) h).eq_ok
    refine .step ?_ (hcur ▸ hstep) (ih ?_ hne)
    · rw [hcur]
      exact ((separated_of_ne_nil hskip).branchEnds).trans hn
    · exact hp.of_suffix ((step_advances h).1.trans (skip_suffix _ _))
  | @bar before done cur rest q h hr ih =>
    have hskip : (cur.skip done.flags).rest ≠ [] := h ▸ List.cons_ne_nil _ _
    have hcur := skip_append_of_ne_nil after hp hskip
    have hbar : ((cur.append after).skip done.flags).rest = '|' :: (rest ++ after) := by
      rw [hcur]
      exact congrArg (· ++ after) h
    refine .bar hbar (ih ?_ hne)
    exact hp.of_suffix ((List.suffix_cons '|' rest).trans (h ▸ skip_suffix _ _))

/-! ## The last piece -/

/-- The way to the last piece of the pattern `text`: an atom that is no escape, whose tree is `e`,
    and that no quantifier follows. -/
structure LastPiece (text : List Char) (e : Regex) extends Place where
  groups : Nat
  reaches : Reaches maxDepth (.start text) toPlace
  not_ends : branchEnds (cur.skip done.flags).rest = false
  not_escape : (cur.skip done.flags).rest.head? ≠ some '\\'
  atom : atom (below maxDepth) done.flags (cur.skip done.flags) = .ok (.piece e, ⟨[], groups⟩)

/-- With more text behind it the last piece is still that piece, and what follows decides how it is
    repeated. -/
theorem LastPiece.read_append {text : List Char} {e : Regex} (p : LastPiece text e)
    (hp : Plain text) (hends : EndsBounds after) :
    branches (below maxDepth) maxDepth noFlags ⟨text ++ after, 0⟩ =
      addPiece maxDepth p.done.flags p.done.pieces e ⟨after, p.groups⟩ >>= fun r =>
        Place.readOn maxDepth ⟨p.before, r.1, r.2⟩ := by
  have hskip : (p.cur.skip p.done.flags).rest ≠ [] := by
    intro hnil
    have hn := p.not_ends
    rw [hnil] at hn
    cases hn
  have hne : p.cur.rest ≠ [] := by
    intro hnil
    have hs : (p.cur.skip p.done.flags).rest <:+ p.cur.rest := skip_suffix _ _
    rw [hnil] at hs
    exact hskip (List.suffix_nil.1 hs)
  have hplain : Plain p.cur.rest := hp.of_suffix p.reaches.suffix
  have hcur := skip_append_of_ne_nil after hplain hskip
  have hatom := (repeats_atom hends (repeatedBelow_self hends maxDepth)
    (shifted_append (hplain.skip p.done.flags)) (fun h => absurd h p.not_escape) p.atom).eq_ok
  have hn : branchEnds ((p.cur.append after).skip p.done.flags).rest = false := by
    rw [hcur]
    exact ((separated_of_ne_nil hskip).branchEnds).trans p.not_ends
  have hway := (p.reaches.append hends hp hne).readOn_eq
  rw [← Place.readOn_start]
  refine hway.trans ?_
  have hread := Place.readOn_of_piece ⟨p.before, p.done, p.cur.append after⟩ hn (hcur ▸ hatom)
  exact hread

end RegexDialects.Pattern.Pcre
