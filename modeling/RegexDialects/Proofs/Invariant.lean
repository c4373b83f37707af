import RegexDialects.Dialect
import RegexDialects.Proofs.EmacsAssembly
import RegexDialects.Proofs.PcreAssembly

/-!
# The invariant of trees

Every tree is in normal form at every node, whether a caller built it or a reader returned it. What
a reader returns is in better order still: its sets are not empty, and their ranges go up.

Both halves are instances of what went before. What is read was built (`assembly_built`), and the
demands on trees that are read are kept by all that readers do (`assembly_readDemands`).
-/

set_option autoImplicit false

namespace RegexDialects

open Pattern Regex

/-! ## What readers do -/

/-- What Emacs can put together includes what PCRE can, so a property of the former is enough for
    both. -/
theorem Pattern.Emacs.Assembly.parse {P : Regex → Prop} (hP : Emacs.Assembly P) {dialect : Dialect}
    {pattern : String} {e : Regex} (h : Regex.parse dialect pattern = .ok e) : P e := by
  cases dialect with
  | emacs => exact Emacs.keeps_parse hP.product h
  | pcre => exact Pcre.keeps_parse hP.toAssembly h

theorem CharSet.built_of {i : CharSet.Item} (hi : Member.IsSpelled (.item i)) :
    (CharSet.of i).Built := by
  refine .adjoin .empty ?_
  intro t h
  subst h
  exact hi.elim

/-- What is read was built. -/
theorem assembly_built : Emacs.Assembly Built where
  text := .text
  primitive := fun p _ => .primitive p
  anyPrimitive := .primitive
  syntaxClass := by
    intro negated k
    cases negated with
    | false => exact .syntaxClass k
    | true => exact .negate (.syntaxClass k) rfl
  category := by
    intro negated k
    cases negated with
    | false => exact .category k
    | true => exact .negate (.category k) rfl
  backref := by
    intro n h1 hn
    exact .reference hn (if_neg (Nat.one_le_iff_ne_zero.1 h1))
  group := fun _ => .group
  repeated := .repeated
  seq := fun _ => .seq
  alt := fun _ _ => .alt
  member := by
    intro m hm
    cases m with
    | item i => exact .set (CharSet.built_of hm)
    | except k => exact .negate (.set (CharSet.built_of (i := .posix k) trivial)) rfl
  bracket := by
    intro negated ms e _ hms h
    have hmem : ∀ x ∈ ms.map Member.tree, Built x := by
      intro x hx
      obtain ⟨m, hm, rfl⟩ := List.mem_map.1 hx
      have hs := hms m hm
      cases m with
      | item i => exact .set (CharSet.built_of hs)
      | except k => exact .negate (.set (CharSet.built_of (i := .posix k) trivial)) rfl
    -- A bracket expression is a union, or the intersection of the complements.
    cases negated with
    | false =>
      cases h
      exact .union hmem
    | true =>
      obtain ⟨l, hl, -⟩ := mapM_negate_tree ms
      simp only [bracketTree, if_true, hl] at h
      refine .intersect (l := l) ?_ h
      intro x hx
      obtain ⟨y, hy, hneg⟩ := exists_mem_of_mapM_ok hl hx
      exact .negate (hmem y hy) hneg

/-! ## The order in which readers leave sets -/

/-- What holds of the nodes of a tree that was read, beyond normal form. Its intersections come from
    negated bracket expressions. -/
def readDemands : Demands where
  set := fun s => s.Tidy ∧ s ≠ .empty ∧ ∀ r ∈ s.ranges, r.1 < r.2
  bounds := BoundsFit
  part := fun e => (∃ k, e = .set (.of (.posix k))) ∨ ∃ s, e = .complement (.set s)

/-- A union has all that its second set has. -/
theorem CharSet.union_ne_empty {s t : CharSet} (h : t ≠ .empty) : s.union t ≠ .empty := by
  intro hu
  apply h
  have hc := congrArg CharSet.chars hu
  have hr := congrArg CharSet.ranges hu
  have hk := congrArg CharSet.classes hu
  obtain ⟨chars, ranges, classes⟩ := t
  simp only [CharSet.union, CharSet.adjoin, CharSet.empty] at hc hr hk
  -- Adjoining leaves nothing out, so nothing was adjoined.
  have hmem : ∀ {α : Type} [DecidableEq α] {xs ys : List α}, addAllNew xs ys = [] → ys = [] := by
    intro α _ xs ys h
    apply List.eq_nil_iff_forall_not_mem.2
    intro y hy
    have := mem_addAllNew.2 (Or.inr hy : y ∈ xs ∨ y ∈ ys)
    rw [h] at this
    exact List.not_mem_nil this
  rw [hmem hc, hmem hr, hmem hk]
  rfl

/-- A set of one item is in order. -/
theorem set_readDemands_of {i : CharSet.Item} (hi : Member.IsSpelled (.item i)) :
    readDemands.set (.of i) := by
  have ht : (CharSet.of i).Tidy := (CharSet.built_of hi).tidy
  cases i with
  | char c =>
    refine ⟨ht, by simp [CharSet.of, CharSet.adjoin, CharSet.empty, addNew], ?_⟩
    intro r hr
    exact absurd hr List.not_mem_nil
  | range lo up =>
    by_cases heq : lo = up
    · -- Such a range is kept as a character.
      subst heq
      refine ⟨ht, by simp [CharSet.of, CharSet.adjoin, CharSet.empty, addNew], ?_⟩
      intro r hr
      simp [CharSet.of, CharSet.adjoin, CharSet.empty] at hr
    · refine ⟨ht, by simp [CharSet.of, CharSet.adjoin, CharSet.empty, addNew, heq], ?_⟩
      intro r hr
      simp only [CharSet.of, CharSet.adjoin, CharSet.empty, addNew, if_neg heq] at hr
      have hr : r = (lo, up) := by simpa using hr
      rw [hr]
      exact Std.lt_of_le_of_ne hi heq
  | posix k =>
    refine ⟨ht, by simp [CharSet.of, CharSet.adjoin, CharSet.empty, addNew], ?_⟩
    intro r hr
    exact absurd hr List.not_mem_nil
  | chars cs => exact hi.elim
  | set s => exact hi.elim

/-- Such sets have unions of the same sort. -/
theorem closed_readDemands : readDemands.Closed where
  char := fun _ => set_readDemands_of (i := .char _) trivial
  union := by
    intro s t hs ht
    -- The first set may be empty; the union is not, because the second one is not.
    have hst : s.Tidy ∧ ∀ r ∈ s.ranges, r.1 < r.2 := by
      rcases hs with rfl | hs
      · refine ⟨CharSet.tidy_empty, ?_⟩
        intro r hr
        exact absurd hr List.not_mem_nil
      · exact ⟨hs.1, hs.2.2⟩
    refine ⟨hst.1.union ht.1, CharSet.union_ne_empty ht.2.1, ?_⟩
    intro r hr
    rcases mem_addAllNew.1 hr with hr | hr
    · exact hst.2 r hr
    · exact ht.2.2 r hr
  exclusion := fun s => Or.inr ⟨s, rfl⟩

/-- Readers keep the demands. -/
theorem assembly_readDemands : Emacs.Assembly (Fit readDemands) where
  text := fit_text
  primitive := fun _ _ => fit_primitive
  anyPrimitive := fun _ => fit_primitive
  syntaxClass := by
    intro negated k
    cases negated with
    | false => exact fit_syntaxClass
    | true => exact fit_complement.2 ⟨rfl, fit_syntaxClass⟩
  category := by
    intro negated k
    cases negated with
    | false => exact fit_category
    | true => exact fit_complement.2 ⟨rfl, fit_category⟩
  backref := fun _ h _ => fit_backref.2 h
  group := fun _ h => fit_group.2 h
  repeated := fun he hb h => fit_repeated h he hb
  seq := fun _ h => fit_seq h
  alt := fun _ hn h => fit_alt closed_readDemands h (Or.inr hn)
  member := fun _ => fit_tree set_readDemands_of
  bracket := by
    intro negated ms e hn hms h
    cases negated with
    | false =>
      cases h
      refine fit_union closed_readDemands ?_ (Or.inr (by simpa using hn))
      intro x hx
      obtain ⟨m, hm, rfl⟩ := List.mem_map.1 hx
      exact fit_tree set_readDemands_of (hms m hm)
    | true =>
      rw [bracketTree_negated] at h
      cases h
      refine fit_conjunction closed_readDemands ?_ (Or.inr (by simpa using hn))
      intro c hc
      obtain ⟨m, hm, rfl⟩ := List.mem_map.1 hc
      exact fit_opposite set_readDemands_of (fun k => Or.inl ⟨k, rfl⟩) (hms m hm)

/-! ## The invariant -/

/-- What is read could have been built. -/
theorem built_of_parse {dialect : Dialect} {pattern : String} {e : Regex}
    (h : Regex.parse dialect pattern = .ok e) : e.Built :=
  assembly_built.parse h

theorem fit_of_parse {dialect : Dialect} {pattern : String} {e : Regex}
    (h : Regex.parse dialect pattern = .ok e) : e.Fit readDemands :=
  assembly_readDemands.parse h

/-- **Every tree is in normal form at every node**, however it was built and whatever pattern it was
    read from; and a tree that was read holds no empty set, and no range that does not go up. -/
theorem normal_of_built_or_read :
    (∀ e : Regex, e.Built → ∀ x ∈ e.nodes, x.IsNormal) ∧
      ∀ (dialect : Dialect) (pattern : String) (e : Regex),
        Regex.parse dialect pattern = .ok e →
          ∀ x ∈ e.nodes, x.IsNormal ∧
            ∀ s, x = .set s → s ≠ .empty ∧ ∀ r ∈ s.ranges, r.1 < r.2 := by
  refine ⟨fun e he => he.fit.normal, ?_⟩
  intro dialect pattern e h x hx
  obtain ⟨hnormal, hmeets⟩ := fit_of_parse h x hx
  refine ⟨hnormal, ?_⟩
  rintro s rfl
  exact ⟨hmeets.2.1, hmeets.2.2⟩

theorem parse_eq_of_toOption {dialect : Dialect} {pattern : String} {e : Regex}
    (h : (Regex.parse dialect pattern).toOption = some e) :
    Regex.parse dialect pattern = .ok e :=
  eq_ok_of_toOption h

/-- The invariant at work on `ab|(c)`, built, and on `[b-d]x*`, read. -/
theorem normal_choice_and_normal_bracket :
    (∀ x ∈ (Regex.alt [.text ['a', 'b'], .group (.text ['c'])]).nodes, x.IsNormal) ∧
      Regex.parse .pcre "[b-d]x*" =
        .ok (.sequence [.set (.of (.range 'b' 'd')), .repetition 0 none true (.literal ['x'])]) ∧
      ∀ s, Regex.set s ∈ (Regex.sequence [.set (.of (.range 'b' 'd')),
          .repetition 0 none true (.literal ['x'])]).nodes → s ≠ .empty := by
  have hbuilt : Built (.alt [.text ['a', 'b'], .group (.text ['c'])]) := by
    refine .alt ?_
    intro e he
    rcases List.mem_cons.1 he with rfl | he
    · exact .text _
    · rw [List.mem_singleton.1 he]
      exact .group (.text _)
  have hparse : Regex.parse .pcre "[b-d]x*" =
      .ok (.sequence [.set (.of (.range 'b' 'd')), .repetition 0 none true (.literal ['x'])]) :=
    parse_eq_of_toOption (by decide +kernel)
  refine ⟨normal_of_built_or_read.1 _ hbuilt, hparse, ?_⟩
  intro s hs
  exact ((normal_of_built_or_read.2 _ _ _ hparse _ hs).2 s rfl).1

end RegexDialects
