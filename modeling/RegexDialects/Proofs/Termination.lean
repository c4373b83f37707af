import RegexDialects.Dialect
import RegexDialects.Proofs.EmacsCourse
import RegexDialects.Proofs.PcreCourse
import RegexDialects.Proofs.PcreFaults

/-!
# Reading ends

The reader of a dialect works as its course says (`Dialect.course`), and both courses are lawful. So
in every state of a reading the cursor is in the pattern, and expressions nest no deeper than they
may; the loops take a character with every turn, and so do atoms that are read; and a reading has at
most four states for each character of the pattern, one of them inside the other or behind it, and
three more.

What is refused in any of the states is what the pattern is refused for, and one of the states that
stop by themselves has the outcome of the whole, which connects the course to `Regex.parse`.
-/

set_option autoImplicit false

namespace RegexDialects

open Pattern

/-- How the reader of a dialect works. -/
def Dialect.course : Dialect → Course
  | emacs => Emacs.course
  | pcre => Pcre.course

namespace Dialect

theorem lawful_course (dialect : Dialect) : dialect.course.Lawful := by
  cases dialect with
  | emacs => exact Emacs.lawful_course
  | pcre => exact Pcre.lawful_course

/-! ## Outcomes -/

variable {dialect : Dialect} {pattern : String} {f : Fault}

/-- What a reading is refused for in its first state is reported. -/
theorem refused_initial (h : (dialect.course.initial pattern.toList).stops = .error f) :
    f.IsWithin pattern.toList ∧
      Regex.parse dialect pattern = .error (f.report pattern.toList) := by
  cases dialect with
  | emacs =>
    have hread : (Emacs.expression maxDepth).read ⟨pattern.toList, 0⟩ = .error f :=
      map_eq_error_iff.1 h
    refine ⟨((Emacs.traces_places _).refused hread).isWithin, ?_⟩
    show Emacs.parse _ = _
    simp only [Emacs.parse, hread]
  | pcre =>
    have hread : (Pcre.expression maxDepth).read ⟨false, false⟩ ⟨pattern.toList, 0⟩ = .error f :=
      map_eq_error_iff.1 h
    refine ⟨(Pcre.refuses_expression maxDepth hread).isWithin, ?_⟩
    show Pcre.parse _ = _
    simp only [Pcre.parse, hread]

/-- A pattern is accepted if a reading leaves nothing of it. -/
theorem exists_parse_iff :
    (∃ e, Regex.parse dialect pattern = .ok e) ↔
      (dialect.course.initial pattern.toList).stops = .ok [] := by
  cases dialect with
  | emacs =>
    show (∃ e, Emacs.parse _ = _) ↔ ((Emacs.expression maxDepth).read _).map (·.2.rest) = _
    unfold Emacs.parse
    rcases (Emacs.expression maxDepth).read ⟨pattern.toList, 0⟩ with f | ⟨e, ⟨_ | ⟨c, rest⟩, n⟩⟩ <;>
      simp [Except.map]
  | pcre =>
    show (∃ e, Pcre.parse _ = _) ↔
      ((Pcre.expression maxDepth).read _ _).map (·.2.rest) = _
    unfold Pcre.parse
    rcases (Pcre.expression maxDepth).read ⟨false, false⟩ ⟨pattern.toList, 0⟩ with
      f | ⟨e, ⟨_ | ⟨c, rest⟩, n⟩⟩ <;> simp [Except.map]

/-! ## States -/

/-- What holds of a state of a reading of `pattern`. -/
structure IsSafe (dialect : Dialect) (pattern : String) (s : dialect.course.State) : Prop where
  /-- The cursor is in the pattern, or at its end. -/
  cursor : ∃ pos ≤ pattern.toList.length, s.rest = pattern.toList.drop pos
  /-- Expressions are not nested too deep. -/
  nesting : s.nesting ≤ maxDepth + 1
  /-- No task moves the cursor back. -/
  stops : ∀ rest, s.stops = .ok rest → rest <:+ s.rest
  /-- An atom that is read has a character. -/
  atom : dialect.course.IsAtom s.task → ∀ rest, s.stops = .ok rest → Advances rest s.rest
  /-- A loop takes a character with every turn, and stops where it stops after the turn. -/
  turn : ∀ t, dialect.course.Turns s.levels s.task t →
    Advances (dialect.course.rest t) s.rest ∧ dialect.course.stops s.levels t = s.stops
  /-- What is refused stands in the pattern, from where it starts to where reading stopped, and the
      pattern is refused for it. -/
  refused : ∀ f, s.stops = .error f →
    f.IsWithin pattern.toList ∧ Regex.parse dialect pattern = .error (f.report pattern.toList)

theorem isSafe_of_inBounds {s : dialect.course.State}
    (h : Course.InBounds pattern.toList s) : dialect.IsSafe pattern s where
  cursor := ⟨_, Nat.sub_le _ _, List.suffix_iff_eq_drop.1 h.rest⟩
  nesting := h.nesting ▸ Nat.le_add_right _ _
  stops := fun _ hstops => dialect.lawful_course.stops_suffix hstops
  atom := fun hatom _ hstops => dialect.lawful_course.atom_advances hatom hstops
  turn := fun _ ht =>
    ⟨dialect.lawful_course.turn_advances ht, (dialect.lawful_course.turn_stops ht).symm⟩
  refused := fun f hf => refused_initial (h.refused f hf)

/-- **Reading makes progress, stays in bounds and ends.** Every state that a reading of a pattern
    comes to is safe. States that come one after another, whether a loop takes a turn, a function is
    called or a group opens, are no more than four for each character, and three. One of the states
    decides where all of the reading stops, and with it whether the pattern is accepted. -/
theorem reading_is_safe_and_ends (dialect : Dialect) (pattern : String) :
    (∀ s, dialect.course.Reaches pattern.toList s → dialect.IsSafe pattern s) ∧
      (∀ l, (dialect.course.initial pattern.toList :: l).IsChain dialect.course.Goes →
        l.length ≤ 4 * pattern.toList.length + 3) ∧
      ∃ s, dialect.course.Reaches pattern.toList s ∧ ¬ dialect.course.Delegates s.task ∧
        s.stops = (dialect.course.initial pattern.toList).stops ∧
        ((∃ e, Regex.parse dialect pattern = .ok e) ↔ s.stops = .ok []) := by
  have hlawful := dialect.lawful_course
  refine ⟨fun _ h => isSafe_of_inBounds (hlawful.inBounds h),
    fun _ h => hlawful.length_le_of_isChain h, ?_⟩
  obtain ⟨s, hs, hend, hstops⟩ := hlawful.exists_end (dialect.course.initial pattern.toList)
  exact ⟨s, hs, hend, hstops, hstops ▸ exists_parse_iff⟩

/-- Behind the bar of `a|(?x:b*` a group opens, and in it a row of quantifiers begins. -/
theorem reading_is_safe_in_group :
    ∃ s : pcre.course.State, pcre.course.Reaches "a|(?x:b*".toList s ∧ s.nesting = 2 ∧
      s.rest = ['*'] ∧ pcre.IsSafe "a|(?x:b*" s ∧ 6 ≤ 4 * "a|(?x:b*".toList.length + 3 := by
  have hbar : Pcre.branch (Pcre.below 200) 200 ⟨false, false⟩ ⟨"a|(?x:b*".toList, 0⟩ =
      .ok ((.literal ['a'], ⟨false, false⟩), ⟨'|' :: "(?x:b*".toList, 0⟩) := by
    decide +kernel
  have hatom : Pcre.atom (Pcre.below 199) ⟨true, false⟩ ⟨['b', '*'], 0⟩ =
      .ok (.piece (.literal ['b']), ⟨['*'], 0⟩) := rfl
  have hrow : Pcre.Task.Calls 199 (.branch ⟨[], ⟨true, false⟩⟩ ⟨['b', '*'], 0⟩)
      (.row ⟨true, false⟩ (199 - (Regex.literal ['b']).repeatDepth) (.literal ['b']) ['*']) :=
    @Pcre.Task.Calls.quantifiers 199 ⟨[], ⟨true, false⟩⟩ ⟨['b', '*'], 0⟩ ⟨['*'], 0⟩ _ _ rfl
      hatom rfl
  have hchain : (pcre.course.initial "a|(?x:b*".toList ::
      [⟨1, 200, Pcre.Task.expression ⟨false, false⟩ ⟨"(?x:b*".toList, 0⟩⟩,
        ⟨1, 200, Pcre.Task.branch ⟨[], ⟨false, false⟩⟩ ⟨"(?x:b*".toList, 0⟩⟩,
        ⟨1, 200, Pcre.Task.atom ⟨false, false⟩ ⟨"(?x:b*".toList, 0⟩⟩,
        ⟨2, 199, Pcre.Task.expression ⟨true, false⟩ ⟨['b', '*'], 0⟩⟩,
        ⟨2, 199, Pcre.Task.branch ⟨[], ⟨true, false⟩⟩ ⟨['b', '*'], 0⟩⟩,
        ⟨2, 199, Pcre.Task.row ⟨true, false⟩ (199 - (Regex.literal ['b']).repeatDepth)
          (.literal ['b']) ['*']⟩]).IsChain pcre.course.Goes := by
    refine .cons_cons (.turn (.bar hbar)) ?_
    refine .cons_cons (.call (.branch _ _)) ?_
    refine .cons_cons (.call (Pcre.Task.Calls.atom rfl)) ?_
    refine .cons_cons (.opens (.shy rfl rfl)) ?_
    refine .cons_cons (.call (.branch _ _)) ?_
    exact .cons_cons (.call hrow) (.singleton _)
  have hreaches := List.relationReflTransGen_of_exists_isChain_cons _ hchain rfl
  obtain ⟨hsafe, hends, -⟩ := reading_is_safe_and_ends pcre "a|(?x:b*"
  exact ⟨_, hreaches, rfl, rfl, hsafe _ hreaches, hends _ hchain⟩

end Dialect

end RegexDialects
