import RegexDialects.Proofs.Invariant
import RegexDialects.Proofs.TwoRuns

/-!
# Patterns inside patterns

A pattern that is read by itself is read the same way inside a group, wherever the group stands:
its tree is a part of the tree of the whole. Flags that are set inside end with the group, and
nothing behind the closing parenthesis changes what is in front of it. Only the depth at which the
group stands may be too much.
-/

set_option autoImplicit false

namespace RegexDialects.Pattern.Pcre

open Regex

/-! ## A pattern in front of a parenthesis -/

theorem read_of_parse {text : List Char} {e : Regex} (h : parse text = .ok e) :
    ∃ groups, (expression maxDepth).read noFlags ⟨text, 0⟩ = .ok (e, ⟨[], groups⟩) := by
  unfold parse at h
  split at h
  · cases h
  · next heq =>
    cases h
    exact ⟨_, heq⟩
  · cases h

/-- What is read as a pattern is read in front of a parenthesis as well, at any depth. -/
theorem read_paren_of_parse {text : List Char} {e : Regex} (h : parse text = .ok e)
    (hp : Plain text) {groups : Nat} (hg : groups = 0 ∨ HasNoReference text) (rest : List Char)
    (levels : Nat) :
    ∃ groups', IsTooDeep ((expression levels).read noFlags ⟨text ++ ')' :: rest, groups⟩) ∨
      (expression levels).read noFlags ⟨text ++ ')' :: rest, groups⟩ =
        .ok (e, ⟨')' :: rest, groups'⟩) := by
  obtain ⟨last, hread⟩ := read_of_parse h
  have hc : Shifted True (')' :: rest) ⟨text, 0⟩ ⟨text ++ ')' :: rest, groups⟩ :=
    ⟨rfl, hp, hg.imp_right fun hr => ⟨trivial, hr⟩⟩
  rcases repeats_expression (endsBounds_cons rfl rest) (fun _ => trivial) hc
    (fun _ => head_paren rest) hread with ⟨-, hdeep⟩ | ⟨⟨rest', groups'⟩, heq, hnext⟩
  · exact ⟨groups, Or.inl hdeep⟩
  · obtain rfl : rest' = ')' :: rest := hnext.rest
    exact ⟨groups', Or.inr heq⟩

theorem read_error_of_atom {levels : Nat} {cur : Cursor} {f : Fault}
    (hn : branchEnds cur.rest = false) (h : atom (below levels) noFlags cur = .error f) :
    (expression levels).read noFlags cur = .error f := by
  have hstep : step (below levels) levels ⟨[], noFlags⟩ cur = .error f := by
    unfold step
    rw [h]
  have hbranch : branch (below levels) levels noFlags cur = .error f := by
    unfold branch
    rw [steps_of_step_error hn hstep]
  rw [expression_eq]
  show alternation (below levels) levels noFlags cur = .error f
  unfold alternation
  rw [branches_of_error hbranch]

/-- A pattern does not begin with an operator. -/
theorem head_of_parse {text : List Char} {e : Regex} (h : parse text = .ok e) :
    ∀ c ∈ text.head?, c ≠ '*' ∧ c ≠ '?' := by
  obtain ⟨last, hread⟩ := read_of_parse h
  intro c hc
  cases text with
  | nil => cases hc
  | cons d text =>
    cases hc
    constructor
    · rintro rfl
      cases (read_error_of_atom rfl rfl).symm.trans hread
    · rintro rfl
      cases (read_error_of_atom rfl rfl).symm.trans hread

/-! ## Compositions -/

/-- A text is read as `e`, or refused because of nesting. -/
def ReadsAs (text : List Char) (e : Regex) : Prop :=
  (∃ f, parse text = .error f ∧ f.kind = .tooDeep) ∨ parse text = .ok e

theorem readsAs_of_branches {text : List Char} {l : List Regex} {n : Nat}
    (h : IsTooDeep (branches (below maxDepth) maxDepth noFlags ⟨text, 0⟩) ∨
      branches (below maxDepth) maxDepth noFlags ⟨text, 0⟩ = .ok (l, ⟨[], n⟩)) :
    ReadsAs text (alt l) := by
  have hread : (expression maxDepth).read noFlags ⟨text, 0⟩ =
      alternation (below maxDepth) maxDepth noFlags ⟨text, 0⟩ := rfl
  unfold ReadsAs parse
  rw [hread]
  unfold alternation
  rcases h with ⟨f, heq, hk⟩ | heq
  · rw [heq]
    exact Or.inl ⟨f.report text, rfl, hk⟩
  · rw [heq]
    exact Or.inr rfl

/-- A text that is read as one branch. -/
theorem readsAs_of_steps {text : List Char} {l : List Regex} {n : Nat}
    (hl : (seq l).IsNormal)
    (h : IsTooDeep (steps (below maxDepth) maxDepth ⟨[], noFlags⟩ ⟨text, 0⟩) ∨
      steps (below maxDepth) maxDepth ⟨[], noFlags⟩ ⟨text, 0⟩ =
        steps (below maxDepth) maxDepth ⟨l.reverse, noFlags⟩ ⟨[], n⟩) :
    ReadsAs text (seq l) := by
  rw [← alt_singleton hl]
  apply readsAs_of_branches
  rcases branch_of_outcome rfl h with ⟨f, heq, hk⟩ | heq
  · exact Or.inl ⟨f, branches_of_error heq, hk⟩
  · exact Or.inr (branches_of_last heq nofun)

section Compositions

variable {u v : List Char} {eu ev : Regex}

/-- A pattern in a group that captures nothing is an atom. -/
theorem atom_shy_of_parse {text : List Char} {e : Regex} (h : parse text = .ok e)
    (hp : Plain text) {groups : Nat} (hg : groups = 0 ∨ HasNoReference text) (rest : List Char) :
    ∃ groups', IsTooDeep (atom (below maxDepth) noFlags ⟨shyGroup text ++ rest, groups⟩) ∨
      atom (below maxDepth) noFlags ⟨shyGroup text ++ rest, groups⟩ =
        .ok (.piece e, ⟨rest, groups'⟩) := by
  have htext : shyGroup text ++ rest = '(' :: '?' :: ':' :: (text ++ ')' :: rest) := by
    simp [shyGroup]
  rw [htext]
  obtain ⟨groups', hbody⟩ := read_paren_of_parse h hp hg rest (maxDepth - 1)
  refine ⟨groups', group_of_shy noFlags (fun _ => rfl) ?_⟩
  intro i hi
  cases hi
  exact hbody

theorem fit_readDemands_of_parse {text : List Char} {e : Regex} (h : parse text = .ok e) :
    e.Fit readDemands :=
  keeps_parse assembly_readDemands.toAssembly h

/-- Two patterns in groups, one behind the other. -/
theorem readsAs_seq (hu : parse u = .ok eu) (hv : parse v = .ok ev) (hpu : Plain u)
    (hpv : Plain v) (hr : HasNoReference v) :
    ReadsAs (shyGroup u ++ shyGroup v) (seq [eu, ev]) := by
  have hfit : ∀ e ∈ [eu, ev], e.Fit readDemands := by
    intro e he
    rcases List.mem_cons.1 he with rfl | he
    · exact fit_readDemands_of_parse hu
    · rw [List.mem_singleton.1 he]
      exact fit_readDemands_of_parse hv
  obtain ⟨groups, hatom⟩ := atom_shy_of_parse hu hpu (Or.inl rfl) (shyGroup v)
  obtain ⟨groups', hatom'⟩ := atom_shy_of_parse hv hpv (Or.inr hr : groups = 0 ∨ _) []
  rw [List.append_nil] at hatom'
  refine readsAs_of_steps (n := groups') (fit_seq hfit).isNormal ?_
  rcases steps_of_atom maxDepth [] rfl (starts_paren _).follows hatom with hdeep | heq
  · exact Or.inl hdeep
  · rw [heq]
    exact steps_of_atom maxDepth [eu] rfl (follows_of_branchEnds rfl false) hatom'

/-- Two patterns in groups, with a bar between them. -/
theorem readsAs_alt (hu : parse u = .ok eu) (hv : parse v = .ok ev) (hpu : Plain u)
    (hpv : Plain v) (hr : HasNoReference v) :
    ReadsAs (shyGroup u ++ '|' :: shyGroup v) (alt [eu, ev]) := by
  have hu1 := seq_singleton (fit_readDemands_of_parse hu).isNormal
  have hv1 := seq_singleton (fit_readDemands_of_parse hv).isNormal
  have hbar : Follows false ('|' :: shyGroup v) := follows_of_branchEnds rfl false
  obtain ⟨groups, hatom⟩ := atom_shy_of_parse hu hpu (Or.inl rfl) ('|' :: shyGroup v)
  obtain ⟨groups', hatom'⟩ := atom_shy_of_parse hv hpv (Or.inr hr : groups = 0 ∨ _) []
  rw [List.append_nil] at hatom'
  refine readsAs_of_branches (n := groups') ?_
  rcases branch_of_outcome (l := [eu]) rfl (steps_of_atom maxDepth [] rfl hbar hatom) with
    ⟨f, heq, hk⟩ | heq
  · exact Or.inl ⟨f, branches_of_error heq, hk⟩
  · rw [hu1] at heq
    rw [branches_of_bar heq]
    rcases branch_of_outcome (l := [ev]) rfl (steps_of_atom maxDepth [] rfl
      (follows_of_branchEnds rfl false) hatom') with ⟨f, heq', hk⟩ | heq'
    · rw [branches_of_error heq']
      exact Or.inl ⟨f, rfl, hk⟩
    · rw [hv1] at heq'
      rw [branches_of_last heq' nofun]
      exact Or.inr rfl

/-- A pattern in a group, and an operator behind it. -/
theorem readsAs_repeated (hv : parse v = .ok ev) (hpv : Plain v) :
    ReadsAs (shyGroup v ++ ['*']) (.repetition 0 none true ev) := by
  have hstar : readQuantifier? ['*'] = .ok (some (⟨0, none, true⟩, [])) := rfl
  have hnormal : (repetition 0 none true ev).IsNormal := by
    intro m hm
    cases hm
  obtain ⟨groups, hatom⟩ := atom_shy_of_parse hv hpv (Or.inl rfl) ['*']
  have hseq := seq_singleton hnormal
  rw [← hseq]
  apply readsAs_of_steps (hseq.symm ▸ hnormal)
  exact steps_of_quantified_atom (q := ⟨0, none, true⟩) maxDepth [] rfl hnormal hstar rfl hatom

/-- A pattern in parentheses. -/
theorem readsAs_group (hv : parse v = .ok ev) (hpv : Plain v) (hr : HasNoReference v) :
    ReadsAs ('(' :: v ++ [')']) (.group ev) := by
  have hopen : ∀ c ∈ (v ++ [')']).head?, c ≠ '*' ∧ c ≠ '?' := by
    intro c hc
    cases v with
    | nil =>
      cases hc
      decide
    | cons d v => exact head_of_parse hv c hc
  have hnormal : (Regex.group ev).IsNormal := trivial
  obtain ⟨groups, hbody⟩ := read_paren_of_parse hv hpv (Or.inr hr) [] (maxDepth - 1)
  have hseq := seq_singleton hnormal
  rw [← hseq]
  apply readsAs_of_steps (hseq.symm ▸ hnormal)
  apply steps_of_atom maxDepth [] rfl (follows_of_branchEnds rfl false)
  apply group_of_capture hopen
  intro i hi
  cases hi
  exact hbody

end Compositions

end RegexDialects.Pattern.Pcre

namespace RegexDialects.Regex

open Pattern Pattern.Pcre

/-- **Reading is compositional**: patterns keep their trees when they are put into groups, one
    behind the other, next to a bar, under an operator or in parentheses. Neither flags nor the
    number of groups in one of them, nor what comes behind it, has an effect on the other. -/
theorem parse_composition {u v : String} {eu ev : Regex}
    (hu : Regex.parse .pcre u = .ok eu) (hv : Regex.parse .pcre v = .ok ev)
    (hpu : Plain u.toList) (hpv : Plain v.toList) (hr : HasNoReference v.toList) :
    IsReadAs .pcre ("(?:" ++ u ++ ")(?:" ++ v ++ ")") (seq [eu, ev]) ∧
      IsReadAs .pcre ("(?:" ++ u ++ ")|(?:" ++ v ++ ")") (alt [eu, ev]) ∧
      (∃ e, repeated 0 none true ev = .ok e ∧ IsReadAs .pcre ("(?:" ++ v ++ ")*") e) ∧
      IsReadAs .pcre ("(" ++ v ++ ")") (.group ev) := by
  have hreads : ∀ {pattern : String} {text : List Char} {e : Regex}, pattern.toList = text →
      ReadsAs text e → IsReadAs .pcre pattern e := by
    rintro pattern text e rfl h
    exact h
  refine ⟨?_, ?_, ⟨_, rfl, ?_⟩, ?_⟩
  · refine hreads ?_ (readsAs_seq hu hv hpu hpv hr)
    simp [shyGroup]
  · refine hreads ?_ (readsAs_alt hu hv hpu hpv hr)
    simp [shyGroup]
  · refine hreads ?_ (readsAs_repeated hv hpv)
    simp [shyGroup]
  · refine hreads ?_ (readsAs_group hv hpv hr)
    simp

/-- White space is ignored in the first pattern only, and only in the second one a dot matches
    newlines. -/
theorem parse_composition_flags :
    Regex.parse .pcre "(?x)a b" = .ok (.literal ['a', 'b']) ∧
      Regex.parse .pcre "(?s). " = .ok (.sequence [.primitive .anything, .literal [' ']]) ∧
      IsReadAs .pcre ("(?:" ++ "(?x)a b" ++ ")(?:" ++ "(?s). " ++ ")")
        (.sequence [.literal ['a', 'b'], .primitive .anything, .literal [' ']]) ∧
      IsReadAs .pcre ("(?:" ++ "(?x)a b" ++ ")|(?:" ++ "(?s). " ++ ")")
        (.choice [.literal ['a', 'b'], .sequence [.primitive .anything, .literal [' ']]]) ∧
      IsReadAs .pcre ("(?:" ++ "(?s). " ++ ")*")
        (.repetition 0 none true (.sequence [.primitive .anything, .literal [' ']])) ∧
      IsReadAs .pcre ("(" ++ "(?s). " ++ ")")
        (.group (.sequence [.primitive .anything, .literal [' ']])) := by
  have hu : Regex.parse .pcre "(?x)a b" = .ok (.literal ['a', 'b']) :=
    parse_eq_of_toOption (by decide +kernel)
  have hv : Regex.parse .pcre "(?s). " =
      .ok (.sequence [.primitive .anything, .literal [' ']]) :=
    parse_eq_of_toOption (by decide +kernel)
  have hplain : ∀ text : List Char, '#' ∉ text → '\\' ∉ text → Plain text := by
    intro text hc hb
    exact ⟨hc, fun hq => hb (hq.subset List.mem_cons_self)⟩
  have hr : HasNoReference "(?s). ".toList := by
    intro d _ hd
    exact absurd (hd.subset List.mem_cons_self) (by decide)
  obtain ⟨hseq, halt, ⟨e, hrep, he⟩, hgroup⟩ :=
    parse_composition hu hv (hplain _ (by decide) (by decide)) (hplain _ (by decide) (by decide)) hr
  cases hrep
  exact ⟨hu, hv, hseq, halt, he, hgroup⟩

end RegexDialects.Regex
