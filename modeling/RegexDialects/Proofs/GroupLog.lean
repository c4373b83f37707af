import RegexDialects.Proofs.Captures
import RegexDialects.Proofs.PcreAssembly
import RegexDialects.Proofs.Spelling

/-!
# What happens to groups while a pattern is read

The reader of PCRE is followed by a log (`patternLog`): a log for each function of the reader, with
an event for each group that opens and for each tree that a quantifier drops, since it allows no
occurrence of it. The invariant is a balance (`Balanced`): of any stretch of reading, the groups
that opened are those that the pieces have gained and those that were dropped. One step keeps it
(`balanced_step`), and so does the reading of an expression at any level (`isLogged_expression`).
-/

set_option autoImplicit false

namespace RegexDialects.Pattern

open Regex

/-! ## Logs -/

/-- What happens to groups while a pattern is read. -/
inductive Event where
  /-- The group with the number `n` opens; its body will be `e`. -/
  | opened (n : Nat) (e : Regex)
  /-- A quantifier allows no occurrence of `e`. -/
  | dropped (e : Regex)

/-- The groups that open, with their numbers. -/
def opened (log : List Event) : List (Nat × Regex) :=
  log.filterMap fun
    | .opened n e => some (n, e)
    | .dropped _ => none

/-- The bodies of the groups that are dropped. -/
def lost (log : List Event) : List Regex :=
  log.flatMap fun
    | .opened _ _ => []
    | .dropped e => e.captures

/-- The quantifiers that follow `e` and allow no occurrence. -/
def quantifiedLog (g : QuantifierGrammar) (budget : Nat) (e : Regex) (text : List Char) :
    List Event :=
  match g.read? (g.skip text), budget with
  | .ok (some (q, rest)), budget + 1 =>
    match Regex.repeated q.least q.most q.greedy e with
    | .error _ => []
    | .ok e' => (if q.most = some 0 then [.dropped e] else []) ++ quantifiedLog g budget e' rest
  | _, _ => []

namespace Pcre

/-- A log for what stands inside a group. -/
abbrev InsideLog := Flags → Cursor → List Event

/-- The log of `group`. -/
def groupLog (deeper : Option Inside) (inner : InsideLog) (flags : Flags) (cur : Cursor) :
    List Event :=
  match deeper with
  | none => []
  | some inside =>
    match Opening.read ('(' :: cur.rest) flags cur.rest with
    | .ok (.shy f, rest) => inner f { cur with rest }
    | .ok (.capture, rest) =>
      match inside.read flags ⟨rest, cur.groups + 1⟩ with
      | .error _ => []
      | .ok (e, _) => .opened (cur.groups + 1) e :: inner flags ⟨rest, cur.groups + 1⟩
    | _ => []

/-- The log of `atom`: only groups open groups. -/
def atomLog (deeper : Option Inside) (inner : InsideLog) (flags : Flags) (cur : Cursor) :
    List Event :=
  match cur.rest with
  | '(' :: rest => groupLog deeper inner flags { cur with rest }
  | _ => []

/-- The log of `addPiece`. -/
def addPieceLog (levels : Nat) (flags : Flags) (e : Regex) (cur : Cursor) : List Event :=
  quantifiedLog (quantifiers flags) (levels - e.repeatDepth) e cur.rest

/-- The log of `addAtom`. -/
def addAtomLog (levels : Nat) (done : Progress) (a : Atom) (cur : Cursor) : List Event :=
  match a with
  | .flags _ => []
  | .piece e => addPieceLog levels done.flags e cur
  | .quoted text =>
    match text.reverse with
    | [] => []
    | c :: _ => addPieceLog levels done.flags (.literal [c]) cur
  | .nothing =>
    match done.pieces with
    | [] => []
    | e :: _ => addPieceLog levels done.flags e cur

/-- The log of `step`. -/
def stepLog (deeper : Option Inside) (inner : InsideLog) (levels : Nat) (done : Progress)
    (cur : Cursor) : List Event :=
  match atom deeper done.flags cur with
  | .error _ => []
  | .ok (a, next) => atomLog deeper inner done.flags cur ++ addAtomLog levels done a next

/-- The log of `steps`. -/
def stepsLog (deeper : Option Inside) (inner : InsideLog) (levels : Nat) (done : Progress)
    (cur : Cursor) : List Event :=
  if branchEnds (cur.skip done.flags).rest then []
  else
    match h : step deeper levels done (cur.skip done.flags) with
    | .error _ => []
    | .ok (p, next) =>
      have : next.rest.length < cur.rest.length :=
        ((step_advances h).suffix_of (skip_suffix _ _)).2
      stepLog deeper inner levels done (cur.skip done.flags) ++
        stepsLog deeper inner levels p next
termination_by cur.rest.length

/-- The log of `branches`. -/
def branchesLog (deeper : Option Inside) (inner : InsideLog) (levels : Nat) (flags : Flags)
    (cur : Cursor) : List Event :=
  match h : branch deeper levels flags cur with
  | .ok ((_, flags'), ⟨'|' :: rest, groups⟩) =>
    have : rest.length < cur.rest.length :=
      Nat.lt_of_lt_of_le (by simp only [List.length_cons]; omega) (branch_suffix h).length_le
    stepsLog deeper inner levels ⟨[], flags⟩ cur ++
      branchesLog deeper inner levels flags' ⟨rest, groups⟩
  | _ => stepsLog deeper inner levels ⟨[], flags⟩ cur
termination_by cur.rest.length

/-- The log of `expression`. -/
def expressionLog : Nat → InsideLog
  | 0 => branchesLog none (fun _ _ => []) 0
  | levels + 1 => branchesLog (some (expression levels)) (expressionLog levels) (levels + 1)

/-- What happens to groups while a pattern is read. -/
def patternLog (pattern : List Char) : List Event :=
  expressionLog maxDepth noFlags ⟨pattern, 0⟩

end Pcre

/-! ## The balance -/

/-- What a log says of a stretch of reading: the counter went from `first` to `last`, the groups
    that opened have the numbers in between, and what was gained from `before` to `after` is the
    groups that opened, less those that were dropped. -/
structure Balanced (log : List Event) (first last : Nat) (before after : List Regex) : Prop where
  count : last = first + (opened log).length
  numbers : (opened log).map Prod.fst = List.range' (first + 1) (opened log).length
  kept : after.Sublist (before ++ (opened log).map Prod.snd)
  balance : after.length + (lost log).length = before.length + (opened log).length

theorem opened_append (log log' : List Event) : opened (log ++ log') = opened log ++ opened log' :=
  List.filterMap_append

theorem lost_append (log log' : List Event) : lost (log ++ log') = lost log ++ lost log' :=
  List.flatMap_append

namespace Balanced

variable {log log' : List Event} {n m k : Nat} {before between after : List Regex}

theorem nil (n : Nat) (l : List Regex) : Balanced [] n n l l where
  count := rfl
  numbers := rfl
  kept := by
    rw [show (opened []).map Prod.snd = [] from rfl, List.append_nil]
  balance := rfl

/-- Stretches one behind the other. -/
theorem append (h : Balanced log n m before between) (h' : Balanced log' m k between after) :
    Balanced (log ++ log') n k before after where
  count := by
    rw [opened_append, List.length_append, h'.count, h.count, Nat.add_assoc]
  numbers := by
    have hfirst : m + 1 = n + 1 + (opened log).length := by
      rw [h.count]
      omega
    rw [opened_append, List.map_append, List.length_append, h.numbers, h'.numbers, hfirst,
      List.range'_append_1]
  kept := by
    rw [opened_append, List.map_append, ← List.append_assoc]
    exact h'.kept.trans (h.kept.append_right _)
  balance := by
    have h1 := h.balance
    have h2 := h'.balance
    rw [opened_append, lost_append, List.length_append, List.length_append]
    omega

/-- What is in front of a stretch stays as it is. -/
theorem behind (h : Balanced log n m before after) (l : List Regex) :
    Balanced log n m (l ++ before) (l ++ after) where
  count := h.count
  numbers := h.numbers
  kept := by
    rw [List.append_assoc]
    exact h.kept.append_left l
  balance := by
    have hb := h.balance
    rw [List.length_append, List.length_append]
    omega

/-- A group around a stretch opens before it. -/
theorem group {e : Regex} (h : Balanced log (n + 1) m [] e.captures) :
    Balanced (.opened (n + 1) e :: log) n m [] (Regex.group e).captures where
  count := by
    rw [h.count]
    show n + 1 + (opened log).length = n + ((opened log).length + 1)
    omega
  numbers := congrArg (List.cons (n + 1)) h.numbers
  kept := h.kept.cons_cons e
  balance := by
    have hb := h.balance
    show (e.captures.length + 1) + (lost log).length = 0 + ((opened log).length + 1)
    rw [List.length_nil] at hb
    omega

/-- A repetition drops its body if it may not occur at all. -/
theorem repeated {least : Nat} {most : Option Nat} {greedy : Bool} {e e' : Regex} (n : Nat)
    (h : Regex.repeated least most greedy e = .ok e') :
    Balanced (if most = some 0 then [.dropped e] else []) n n e.captures e'.captures := by
  rw [captures_repeated h]
  split
  · refine ⟨rfl, rfl, List.nil_sublist _, ?_⟩
    show 0 + (e.captures ++ []).length = e.captures.length + 0
    rw [List.append_nil, Nat.zero_add, Nat.add_zero]
  · exact nil n e.captures

end Balanced

/-- Quantifiers open no group, and drop what they allow no occurrence of. -/
theorem balanced_quantified {g : QuantifierGrammar} {budget : Nat} {e e' : Regex}
    {text rest : List Char} (n : Nat) (h : quantified g budget e text = .ok (e', rest)) :
    Balanced (quantifiedLog g budget e text) n n e.captures e'.captures := by
  induction budget generalizing e text with
  | zero =>
    unfold quantified at h
    split at h
    · cases h
    · next hq =>
      cases h
      unfold quantifiedLog
      rw [hq]
      exact .nil n _
    · split at h <;> cases h
  | succ budget ih =>
    unfold quantified at h
    split at h
    · cases h
    · next hq =>
      cases h
      unfold quantifiedLog
      rw [hq]
      exact .nil n _
    · next q mid hq =>
      split at h
      · cases h
      · simp only at h
        split at h
        · cases h
        · next hr =>
          unfold quantifiedLog
          rw [hq]
          simp only [hr]
          exact (Balanced.repeated n hr).append (ih h)

namespace Pcre

/-! ## Atoms -/

/-- The groups of an atom. -/
def Atom.captures : Atom → List Regex
  | .piece e => e.captures
  | _ => []

/-- The groups of the pieces so far, in the order of the pattern. -/
def Progress.captures (done : Progress) : List Regex :=
  done.pieces.reverse.flatMap Regex.captures

theorem captures_cons (e : Regex) (pieces : List Regex) (flags : Flags) :
    Progress.captures ⟨e :: pieces, flags⟩ = Progress.captures ⟨pieces, flags⟩ ++ e.captures := by
  simp [Progress.captures]

/-- A log tells what happens to groups while a reader reads. -/
def Inside.IsLogged (inside : Inside) (log : InsideLog) : Prop :=
  ∀ ⦃flags cur e next⦄, inside.read flags cur = .ok (e, next) →
    Balanced (log flags cur) cur.groups next.groups [] e.captures

section Levels

variable {deeper : Option Inside} {inner : InsideLog}

theorem balanced_groupBody {inside : Inside} {log : InsideLog} (hi : inside.IsLogged log)
    {whole : List Char} {flags : Flags} {cur next : Cursor} {e : Regex}
    (h : groupBody inside whole flags cur = .ok (e, next)) :
    Balanced (log flags cur) cur.groups next.groups [] e.captures ∧
      ∃ next', inside.read flags cur = .ok (e, next') := by
  unfold groupBody at h
  split at h
  · cases h
  · next hb =>
    cases h
    have hbal := hi hb
    exact ⟨hbal, _, hb⟩
  · cases h

/-- A group that captures opens first, and what happens inside comes behind it. -/
theorem balanced_group (hi : ∀ i ∈ deeper, i.IsLogged inner) {flags : Flags} {cur next : Cursor}
    {a : Atom} (h : group deeper flags cur = .ok (a, next)) :
    Balanced (groupLog deeper inner flags cur) cur.groups next.groups [] a.captures := by
  simp only [group] at h
  split at h
  · cases h
  · next inside =>
    have hi := hi inside rfl
    split at h
    · cases h
    · next ho =>
      cases h
      simp only [groupLog, ho]
      exact .nil _ _
    · next ho =>
      cases h
      simp only [groupLog, ho]
      exact .nil _ _
    · next ho =>
      split at h
      · cases h
      · next hb =>
        cases h
        simp only [groupLog, ho]
        exact (balanced_groupBody hi hb).1
    · next ho =>
      split at h
      · cases h
      · next hb =>
        cases h
        obtain ⟨hbal, next', hread⟩ := balanced_groupBody hi hb
        simp only [groupLog, ho, hread]
        exact hbal.group

/-- An escape stands for a character, a position, a class or a reference, and none of these is a
    group. -/
theorem captures_escape {groups : Nat} {text rest : List Char} {a : Atom}
    (h : escape groups text = .ok (a, rest)) : a.captures = [] := by
  simp only [escape] at h
  split at h
  · cases h
  · split at h
    · cases h
      unfold digitEscape
      simp only [Atom.captures]
      split
      · rfl
      · split <;> rfl
    · split at h
      · cases h
        rfl
      · split at h
        · cases h
          rfl
        · split at h
          · cases h
            rfl
          · split at h
            · next hc =>
              cases h
              obtain ⟨m, -, rfl⟩ := exists_member_of_shorthandClass? hc
              exact captures_of_marks m.marks_tree
            · split at h
              · cases h
              · cases h
                rfl

theorem captures_brackets {text rest : List Char} {e : Regex}
    (h : brackets.read text = .ok (e, rest)) : e.captures = [] := by
  obtain ⟨negated, ms, -, -, ht⟩ := exists_bracketTree spellsMembers_brackets.spells h
  exact captures_of_marks (marks_bracketTree ht)

/-- An atom that is no group opens none. -/
theorem captures_atom_of_ne {flags : Flags} {cur next : Cursor} {a : Atom}
    (h : atom deeper flags cur = .ok (a, next)) (hc : ∀ rest, cur.rest ≠ '(' :: rest) :
    a.captures = [] ∧ next.groups = cur.groups := by
  unfold atom at h
  split at h
  · cases h
  · next c rest hr =>
    split at h
    · next hp =>
      rw [hp] at hr
      exact absurd hr (hc rest)
    · split at h
      · split at h
        · cases h
        · next hb =>
          cases h
          exact ⟨captures_brackets hb, rfl⟩
      · split at h
        · split at h
          · cases h
          · next he =>
            cases h
            exact ⟨captures_escape he, rfl⟩
        · split at h
          · cases h
            exact ⟨rfl, rfl⟩
          · split at h
            · cases h
              exact ⟨rfl, rfl⟩
            · split at h
              · cases h
                exact ⟨rfl, rfl⟩
              · split at h
                · cases h
                · cases h
                  exact ⟨rfl, rfl⟩

theorem balanced_atom (hi : ∀ i ∈ deeper, i.IsLogged inner) {flags : Flags} {cur next : Cursor}
    {a : Atom} (h : atom deeper flags cur = .ok (a, next)) :
    Balanced (atomLog deeper inner flags cur) cur.groups next.groups [] a.captures := by
  unfold atomLog
  split
  · next rest hr =>
    have hgroup : group deeper flags { cur with rest } = .ok (a, next) := by
      rw [← h, atom, hr]
      rfl
    exact balanced_group hi hgroup
  · next hne =>
    obtain ⟨hcaptures, hgroups⟩ := captures_atom_of_ne h fun rest hr => hne rest hr
    rw [hcaptures, hgroups]
    exact .nil _ _

/-! ## Steps, branches and expressions -/

theorem balanced_addPiece {levels : Nat} {flags : Flags} {pieces : List Regex} {e : Regex}
    {cur next : Cursor} {p : Progress}
    (h : addPiece levels flags pieces e cur = .ok (p, next)) :
    Balanced (addPieceLog levels flags e cur) cur.groups next.groups
      (Progress.captures ⟨pieces, flags⟩ ++ e.captures) p.captures := by
  unfold addPiece at h
  split at h
  · cases h
  · next hq =>
    cases h
    rw [captures_cons]
    exact (balanced_quantified cur.groups hq).behind _

/-- What an atom has gained goes to the pieces, with the quantifiers behind it applied. -/
theorem balanced_addAtom {levels : Nat} {done p : Progress} {a : Atom} {cur next : Cursor}
    (h : addAtom levels done a cur = .ok (p, next)) :
    Balanced (addAtomLog levels done a cur) cur.groups next.groups
      (done.captures ++ a.captures) p.captures := by
  cases a with
  | flags f =>
    cases h
    rw [show (Atom.flags f).captures = [] from rfl, List.append_nil]
    exact .nil _ _
  | piece e => exact balanced_addPiece h
  | quoted text =>
    rw [show (Atom.quoted text).captures = [] from rfl, List.append_nil]
    unfold addAtom at h
    simp only at h
    split at h
    · next ht =>
      cases h
      simp only [addAtomLog, ht]
      exact .nil _ _
    · next c l ht =>
      simp only [addAtomLog, ht]
      -- The characters of a quotation are no groups, wherever they stand.
      have hbal := balanced_addPiece h
      rw [captures_cons, captures_text, captures_literal, List.append_nil, List.append_nil] at hbal
      exact hbal
  | nothing =>
    rw [show Atom.nothing.captures = [] from rfl, List.append_nil]
    unfold addAtom at h
    simp only at h
    split at h
    · next hd =>
      cases h
      simp only [addAtomLog, hd]
      exact .nil _ _
    · next e l hd =>
      simp only [addAtomLog, hd]
      -- The quantifiers apply to the latest piece, whose groups come last.
      have hdone : done.captures = Progress.captures ⟨l, done.flags⟩ ++ e.captures := by
        rw [← captures_cons e l done.flags, ← hd]
      rw [hdone]
      exact balanced_addPiece h

/-- **One step keeps the balance.** -/
theorem balanced_step (hi : ∀ i ∈ deeper, i.IsLogged inner) {levels : Nat} {done p : Progress}
    {cur next : Cursor} (h : step deeper levels done cur = .ok (p, next)) :
    Balanced (stepLog deeper inner levels done cur) cur.groups next.groups done.captures
      p.captures := by
  unfold step at h
  split at h
  · cases h
  · next ha =>
    simp only [stepLog, ha]
    have hatom := (balanced_atom hi ha).behind done.captures
    rw [List.append_nil] at hatom
    exact hatom.append (balanced_addAtom h)

theorem stepsLog_of_step {levels : Nat} {done p : Progress} {cur next : Cursor}
    (hn : ¬ branchEnds (cur.skip done.flags).rest = true)
    (h : step deeper levels done (cur.skip done.flags) = .ok (p, next)) :
    stepsLog deeper inner levels done cur =
      stepLog deeper inner levels done (cur.skip done.flags) ++
        stepsLog deeper inner levels p next := by
  conv_lhs => unfold stepsLog
  rw [if_neg hn]
  split
  · next heq =>
    rw [h] at heq
    cases heq
  · next heq =>
    rw [h] at heq
    cases heq
    rfl

theorem balanced_steps (hi : ∀ i ∈ deeper, i.IsLogged inner) {levels : Nat} {done p : Progress}
    {cur next : Cursor} (h : steps deeper levels done cur = .ok (p, next)) :
    Balanced (stepsLog deeper inner levels done cur) cur.groups next.groups done.captures
      p.captures := by
  induction hn : cur.rest.length using Nat.strongRecOn generalizing cur done with
  | _ n ih =>
    unfold steps at h
    split at h
    · next hb =>
      cases h
      unfold stepsLog
      rw [if_pos hb]
      exact .nil _ _
    · next hb =>
      split at h
      · cases h
      · next hs =>
        -- A step makes the rest shorter, and its stretch comes before that of the others.
        have a := (step_advances hs).suffix_of (skip_suffix _ _)
        rw [stepsLog_of_step hb hs]
        exact (balanced_step hi hs).append (ih _ (hn ▸ a.2) h rfl)

theorem balanced_branch (hi : ∀ i ∈ deeper, i.IsLogged inner) {levels : Nat} {flags : Flags}
    {cur next : Cursor} {r : Regex × Flags} (h : branch deeper levels flags cur = .ok (r, next)) :
    Balanced (stepsLog deeper inner levels ⟨[], flags⟩ cur) cur.groups next.groups []
      r.1.captures := by
  unfold branch at h
  split at h
  · cases h
  · next hs =>
    cases h
    rw [captures_seq]
    exact balanced_steps hi hs

theorem branchesLog_of_bar {levels groups : Nat} {flags flags' : Flags} {cur : Cursor} {e : Regex}
    {rest : List Char}
    (h : branch deeper levels flags cur = .ok ((e, flags'), ⟨'|' :: rest, groups⟩)) :
    branchesLog deeper inner levels flags cur =
      stepsLog deeper inner levels ⟨[], flags⟩ cur ++
        branchesLog deeper inner levels flags' ⟨rest, groups⟩ := by
  conv_lhs => unfold branchesLog
  split
  · next heq =>
    rw [h] at heq
    cases heq
    rfl
  · next hne => exact absurd h (hne _ _ _ _)

theorem branchesLog_of_not_bar {levels : Nat} {flags : Flags} {cur next : Cursor}
    {r : Regex × Flags} (h : branch deeper levels flags cur = .ok (r, next))
    (hbar : ∀ rest, next.rest ≠ '|' :: rest) :
    branchesLog deeper inner levels flags cur = stepsLog deeper inner levels ⟨[], flags⟩ cur := by
  unfold branchesLog
  split
  · next heq =>
    rw [h] at heq
    cases heq
    exact absurd rfl (hbar _)
  · rfl

theorem balanced_branches (hi : ∀ i ∈ deeper, i.IsLogged inner) {levels : Nat} {flags : Flags}
    {cur next : Cursor} {l : List Regex}
    (h : branches deeper levels flags cur = .ok (l, next)) :
    Balanced (branchesLog deeper inner levels flags cur) cur.groups next.groups []
      (l.flatMap Regex.captures) := by
  induction hn : cur.rest.length using Nat.strongRecOn generalizing cur flags l with
  | _ n ih =>
    unfold branches at h
    split at h
    · cases h
    · next e flags' rest groups hb =>
      simp only at h
      split at h
      · cases h
      · next hl =>
        cases h
        have s := (branch_suffix hb).length_le
        simp only [List.length_cons] at s
        rw [branchesLog_of_bar hb, List.flatMap_cons]
        have hrest := (ih _ (by simp only; omega) hl rfl).behind e.captures
        rw [List.append_nil] at hrest
        exact (balanced_branch hi hb).append hrest
    · next hbar hb =>
      cases h
      rw [branchesLog_of_not_bar hb, List.flatMap_singleton]
      · exact balanced_branch hi hb
      · intro rest hr
        exact hbar _ _ (by rw [← hr])

/-- At one level the log is right if it is right at the level below. -/
theorem isLogged_inside (hi : ∀ i ∈ deeper, i.IsLogged inner) (levels : Nat) :
    (inside deeper levels).IsLogged (branchesLog deeper inner levels) := by
  intro flags cur e next h
  change alternation deeper levels flags cur = _ at h
  unfold alternation at h
  split at h
  · cases h
  · next hl =>
    cases h
    rw [captures_alt]
    exact balanced_branches hi hl

end Levels

/-- At every level the log tells what happens to groups. -/
theorem isLogged_expression (levels : Nat) :
    (expression levels).IsLogged (expressionLog levels) := by
  induction levels with
  | zero =>
    refine isLogged_inside ?_ 0
    intro i hi
    cases hi
  | succ levels ih =>
    refine isLogged_inside ?_ (levels + 1)
    intro i hi
    cases hi
    exact ih

end Pcre

end RegexDialects.Pattern
