import Mathlib.Data.List.Chain
import Mathlib.Logic.Relation
import RegexDialects.Pattern.Fault

/-!
# The course of a reading

A reader is made of functions that call one another, and of loops. A task is a call of one of the
functions, or what is left to do of a loop (`Course`). The states of a reading are tasks, together
with the number of expressions that are being read one inside the other (`Course.State`), and there
are three ways from one state to the next (`Course.Goes`): a loop takes another turn, a function is
called, or a group opens. Which tasks there are, and when one leads to another, is for the dialect
to say, by what its functions return.

A course is lawful (`Course.Lawful`) if every turn of a loop takes a character, and no more than
three calls come one after another before one is taken; if the outcome of a task is that of the next
turn, of a function to which it is left, or, behind a parenthesis, of what stands in a group; and if
what a called function refuses is refused by the caller. These are the step lemmas. For a whole
reading it follows that no state is out of bounds (`Course.Lawful.inBounds`), that only so many
states come one after another (`Course.Lawful.length_le_of_isChain`), and that one of them has the
outcome of the reading and leaves it to no other (`Course.Lawful.exists_end`).
-/

set_option autoImplicit false

namespace RegexDialects.Pattern

theorem Advances.of_eq_cons {rest text whole : List Char} {c : Char} (h : whole = c :: text)
    (hs : rest <:+ text) : Advances rest whole :=
  h ▸ .cons c hs

/-! ## Courses -/

/-- How a reader works. -/
structure Course where
  /-- A call of a function, or what is left to do of a loop. -/
  Task : Type
  /-- What is left of the pattern when the task begins. -/
  rest : Task → List Char
  /-- Whether the task is to read one atom. -/
  IsAtom : Task → Prop
  /-- Whether it is left to another task, at the same level, where this one stops. -/
  Delegates : Task → Prop
  /-- How many more calls may come before a character is taken. -/
  rank : Task → Nat
  /-- Where the task stops, with so many levels for groups, or why it is refused. -/
  stops : Nat → Task → Except Fault (List Char)
  /-- A loop takes a turn. -/
  Turns : Nat → Task → Task → Prop
  /-- A function is called, which reads at the same level. -/
  Calls : Nat → Task → Task → Prop
  /-- A group opens, and what stands inside is read at the level below. -/
  Opens : Task → Task → Prop
  /-- What closes a group. -/
  close : List Char
  /-- The task of reading all of a pattern. -/
  start : List Char → Task

namespace Course

/-- Where a reading is. -/
structure State (c : Course) where
  /-- How many expressions are being read, one inside the other. -/
  nesting : Nat
  /-- How many more there may be. -/
  levels : Nat
  task : c.Task

variable {c : Course} {s s' : c.State} {pattern : List Char}

/-- What is left of the pattern in a state. -/
def State.rest (s : c.State) : List Char :=
  c.rest s.task

/-- Where the task of a state stops, or why it is refused. -/
def State.stops (s : c.State) : Except Fault (List Char) :=
  c.stops s.levels s.task

/-- A reading goes on from one state to the next. -/
inductive Goes (c : Course) : c.State → c.State → Prop where
  | turn {n levels : Nat} {t t' : c.Task} (h : c.Turns levels t t') :
      Goes c ⟨n, levels, t⟩ ⟨n, levels, t'⟩
  | call {n levels : Nat} {t t' : c.Task} (h : c.Calls levels t t') :
      Goes c ⟨n, levels, t⟩ ⟨n, levels, t'⟩
  | opens {n levels : Nat} {t t' : c.Task} (h : c.Opens t t') :
      Goes c ⟨n, levels + 1, t⟩ ⟨n + 1, levels, t'⟩

/-- The state in which a pattern begins to be read. -/
def initial (c : Course) (pattern : List Char) : c.State :=
  ⟨1, maxDepth, c.start pattern⟩

/-- A reading of `pattern` comes to a state. -/
def Reaches (c : Course) (pattern : List Char) : c.State → Prop :=
  Relation.ReflTransGen c.Goes (c.initial pattern)

/-- Where a group `whole` stops if what stands inside stops there. -/
def closed (close whole : List Char) : Except Fault (List Char) → Except Fault (List Char)
  | .error f => .error f
  | .ok text =>
    match close.isPrefixOf? text with
    | some rest => .ok rest
    | none => .error ⟨.unmatchedParen, whole, text⟩

theorem closed_of_ne {close whole text : List Char} (h : ∀ rest, text ≠ close ++ rest) :
    closed close whole (.ok text) = .error ⟨.unmatchedParen, whole, text⟩ := by
  have hnone : close.isPrefixOf? text = none := by
    refine Option.eq_none_iff_forall_ne_some.2 ?_
    intro rest hrest
    exact h rest (List.isPrefixOf?_eq_some_iff_append_eq.1 hrest).symm
  simp only [closed, hnone]

/-- What one step of a reading does. -/
structure Lawful (c : Course) : Prop where
  rest_start : ∀ pattern, c.rest (c.start pattern) = pattern
  rank_le : ∀ t, c.rank t ≤ 3
  turn_advances : ∀ {levels t t'}, c.Turns levels t t' → Advances (c.rest t') (c.rest t)
  turn_stops : ∀ {levels t t'}, c.Turns levels t t' → c.stops levels t = c.stops levels t'
  call_advances : ∀ {levels t t'}, c.Calls levels t t' →
    Advances (c.rest t') (c.rest t) ∨ c.rest t' <:+ c.rest t ∧ c.rank t' < c.rank t
  call_refused : ∀ {levels t t' f}, c.Calls levels t t' → c.stops levels t' = .error f →
    c.stops levels t = .error f
  open_advances : ∀ {t t'}, c.Opens t t' → Advances (c.rest t') (c.rest t)
  open_stops : ∀ {levels t t'}, c.Opens t t' →
    c.stops (levels + 1) t = closed c.close (c.rest t) (c.stops levels t')
  delegates : ∀ {levels t}, c.Delegates t →
    ∃ t', (c.Turns levels t t' ∨ c.Calls levels t t') ∧ c.stops levels t' = c.stops levels t
  stops_suffix : ∀ {levels t text}, c.stops levels t = .ok text → text <:+ c.rest t
  atom_advances : ∀ {levels t text}, c.IsAtom t → c.stops levels t = .ok text →
    Advances text (c.rest t)

/-! ## Steps -/

/-- What every state of a reading keeps to. -/
structure InBounds (pattern : List Char) (s : c.State) : Prop where
  rest : s.rest <:+ pattern
  nesting : s.nesting + s.levels = maxDepth + 1
  /-- What is refused in the state is what the pattern is refused for. -/
  refused : ∀ f, s.stops = .error f → (c.initial pattern).stops = .error f

/-- An upper bound for the number of states that may still follow. -/
def State.size (s : c.State) : Nat :=
  4 * s.rest.length + c.rank s.task

namespace Lawful

variable (hc : c.Lawful)

include hc

theorem goes_suffix (h : c.Goes s s') : s'.rest <:+ s.rest := by
  cases h with
  | turn h => exact (hc.turn_advances h).1
  | call h => exact (hc.call_advances h).elim And.left And.left
  | opens h => exact (hc.open_advances h).1

theorem goes_refused (h : c.Goes s s') {f : Fault} (hf : s'.stops = .error f) :
    s.stops = .error f := by
  cases h with
  | turn h => exact (hc.turn_stops h).trans hf
  | call h => exact hc.call_refused h hf
  | opens h => exact (hc.open_stops h).trans (congrArg (closed _ _) hf)

/-- A step keeps a reading in bounds. -/
theorem inBounds_of_goes (hs : InBounds pattern s) (h : c.Goes s s') : InBounds pattern s' where
  rest := (hc.goes_suffix h).trans hs.rest
  nesting := by
    have hnesting := hs.nesting
    cases h with
    | turn h => exact hnesting
    | call h => exact hnesting
    | opens h =>
      simp only at hnesting ⊢
      omega
  refused := fun f hf => hs.refused f (hc.goes_refused h hf)

theorem size_lt_of_advances (h : s'.rest.length < s.rest.length) : s'.size < s.size := by
  have hrank := hc.rank_le s'.task
  unfold State.size
  omega

/-- A step takes a character, or comes closer to one that does. -/
theorem size_lt_of_goes (h : c.Goes s s') : s'.size < s.size := by
  cases h with
  | turn h => exact hc.size_lt_of_advances (hc.turn_advances h).2
  | @call n levels t t' h =>
    rcases hc.call_advances h with hrest | ⟨hrest, hrank⟩
    · exact hc.size_lt_of_advances hrest.2
    · have hle := hrest.length_le
      show 4 * (c.rest t').length + c.rank t' < 4 * (c.rest t).length + c.rank t
      omega
  | opens h => exact hc.size_lt_of_advances (hc.open_advances h).2

/-! ## Readings -/

theorem inBounds_initial (pattern : List Char) : InBounds pattern (c.initial pattern) where
  rest := ⟨[], hc.rest_start pattern⟩
  nesting := Nat.add_comm 1 maxDepth
  refused := fun _ hf => hf

/-- A reading stays in bounds. -/
theorem inBounds (h : c.Reaches pattern s) : InBounds pattern s := by
  induction h with
  | refl => exact hc.inBounds_initial pattern
  | tail _ hgoes ih => exact hc.inBounds_of_goes ih hgoes

theorem length_le_size {l : List c.State} (h : (s :: l).IsChain c.Goes) : l.length ≤ s.size := by
  induction l generalizing s with
  | nil => exact Nat.zero_le _
  | cons s' l ih =>
    rw [List.isChain_cons_cons] at h
    have hlt := hc.size_lt_of_goes h.1
    have hle := ih h.2
    rw [List.length_cons]
    omega

/-- A reading comes to an end, whatever the pattern. -/
theorem length_le_of_isChain {l : List c.State} (h : (c.initial pattern :: l).IsChain c.Goes) :
    l.length ≤ 4 * pattern.length + 3 := by
  have hle := hc.length_le_size h
  have hrank := hc.rank_le (c.start pattern)
  have hsize : (c.initial pattern).size = 4 * pattern.length + c.rank (c.start pattern) := by
    show 4 * (c.rest (c.start pattern)).length + c.rank (c.start pattern) = _
    rw [hc.rest_start]
  omega

/-- A reading comes to a task that leaves it to no other where it stops. -/
theorem exists_end (s : c.State) :
    ∃ s', Relation.ReflTransGen c.Goes s s' ∧ ¬ c.Delegates s'.task ∧ s'.stops = s.stops := by
  induction hn : s.size using Nat.strongRecOn generalizing s with
  | _ n ih =>
    by_cases hd : c.Delegates s.task
    · obtain ⟨t, hgoes, hstops⟩ := @hc.delegates s.levels _ hd
      have hgoes : c.Goes s ⟨s.nesting, s.levels, t⟩ := hgoes.elim .turn .call
      obtain ⟨s', hs', hend, heq⟩ := ih _ (hn ▸ hc.size_lt_of_goes hgoes) _ rfl
      exact ⟨s', .head hgoes hs', hend, heq.trans hstops⟩
    · exact ⟨s, .refl, hd, rfl⟩

end Lawful

end Course

end RegexDialects.Pattern
