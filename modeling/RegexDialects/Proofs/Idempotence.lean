import RegexDialects.Proofs.Built

/-!
# Building what is built already

The functions that build trees leave alone what they have built: a sequence, a choice or an
intersection that is given back to its function alone comes out as it went in
(`rebuild_of_built`). For sequences more is true, since a sequence may stand at any place in a list:
the tree does not depend on how the list is grouped (`seq_append_seq`).

The work is with intersections. The operands of one that was built are what it requires and the one
set that it excludes; they are sorted into the same two heaps that they came from
(`intersect_ofConjuncts`), and the tree depends on the heaps alone (`conjunction_congr`).
-/

set_option autoImplicit false

namespace RegexDialects.Regex

/-! ## Conjuncts of an intersection -/

/-- What an operand requires is sorted as what it is. -/
theorem conjunct_of_conjunct {x e : Regex} (h : x.conjunct = .ok (.within e)) :
    e.conjunct = .ok (.within e) := by
  unfold conjunct at h
  split at h
  · cases h
  · cases h
    rfl
  · next hset hchar =>
    split at h
    · next hlike =>
      cases h
      -- Neither special case applies to the operand, so it is sorted by the same one again.
      unfold conjunct
      split
      · exact absurd rfl (hset _)
      · exact absurd rfl (hchar _)
      · rw [if_pos hlike]
    · cases h

theorem required_within (l : List Regex) (cs : List Conjunct) :
    required (l.map .within ++ cs) = l ++ required cs := by
  unfold required
  rw [List.filterMap_append, List.filterMap_map]
  exact congrArg (· ++ _) List.filterMap_some

theorem excluded_within (l : List Regex) (cs : List Conjunct) :
    excluded (l.map .within ++ cs) = excluded cs := by
  have hnone : (l.map Conjunct.within).filterMap Conjunct.excluded? = [] := by
    rw [List.filterMap_map]
    exact List.filterMap_eq_nil_iff.2 fun _ _ => rfl
  unfold excluded
  rw [List.filterMap_append, hnone, List.nil_append]

/-- The result depends on the two heaps alone. -/
theorem conjunction_congr {cs cs' : List Conjunct} (hr : required cs = required cs')
    (hx : excluded cs = excluded cs') : conjunction cs = conjunction cs' := by
  unfold required at hr
  unfold excluded at hx
  unfold conjunction
  rw [hr, hx]

theorem mapM_conjunct_append {l m : List Regex} {cs : List Conjunct}
    (hl : ∀ e ∈ l, e.conjunct = .ok (.within e)) (hm : m.mapM conjunct = .ok cs) :
    (l ++ m).mapM conjunct = .ok (l.map .within ++ cs) := by
  induction l with
  | nil => exact hm
  | cons e l ih =>
    have htail := ih fun x hx => hl x (List.mem_cons_of_mem _ hx)
    exact mapM_cons_eq_ok_iff.2 ⟨_, _, hl e List.mem_cons_self, htail, rfl⟩

/-! ## Operands of an intersection -/

theorem operandsAll_of_forall {l : List Regex} (h : ∀ e ∈ l, e.isIntersection = false) :
    operandsAll l = l := by
  rw [operandsAll_eq_flatMap]
  induction l with
  | nil => rfl
  | cons e l ih =>
    rw [List.flatMap_cons, operands_of_ne (h e List.mem_cons_self),
      ih fun x hx => h x (List.mem_cons_of_mem _ hx)]
    rfl

/-- The tree of the parts of an intersection stands for these parts. -/
theorem operands_ofConjuncts {l : List Regex} (h : ∀ e ∈ l, e.isIntersection = false) :
    (ofConjuncts l).operands = l := by
  match l with
  | [] => rfl
  | [e] => exact operands_of_ne (h e List.mem_cons_self)
  | _ :: _ :: _ => exact operandsAll_of_forall h

/-- Sorting the parts of an intersection again gives the heaps that they came from. -/
theorem intersect_ofConjuncts {cs : List Conjunct} (hx : (excluded cs).Tidy)
    (hl : ∀ e ∈ required cs, e.conjunct = .ok (.within e) ∧ e.isIntersection = false) :
    intersect [ofConjuncts (conjuncts cs)] = .ok (conjunction cs) := by
  have hsorted : ∀ e ∈ required cs, e.conjunct = .ok (.within e) := fun e he => (hl e he).1
  have hflat : ∀ e ∈ conjuncts cs, e.isIntersection = false := by
    intro e he
    unfold conjuncts at he
    split at he
    · exact (hl e he).2
    · rcases List.mem_append.1 he with he | he
      · exact (hl e he).2
      · rw [List.mem_singleton.1 he]
        rfl
  obtain ⟨cs', hcs', hr', hx'⟩ : ∃ cs', (conjuncts cs).mapM conjunct = .ok cs' ∧
      required cs' = required cs ∧ excluded cs' = excluded cs := by
    unfold conjuncts
    split
    · next hempty =>
      have hmap := mapM_conjunct_append (m := []) hsorted rfl
      rw [List.append_nil] at hmap
      refine ⟨_, hmap, ?_, ?_⟩
      · rw [required_within]
        exact List.append_nil _
      · rw [excluded_within, CharSet.isEmpty_eq_true_iff.1 hempty]
        rfl
    · have hlast : [complement (.set (excluded cs))].mapM conjunct =
          .ok [.without (excluded cs)] := rfl
      refine ⟨_, mapM_conjunct_append hsorted hlast, ?_, ?_⟩
      · rw [required_within]
        exact List.append_nil _
      · rw [excluded_within]
        exact CharSet.empty_union hx
  rw [intersect, operandsAll, operandsAll, List.append_nil, operands_ofConjuncts hflat, hcs',
    conjunction_congr hr'.symm hx'.symm]
  rfl

/-- A tree that is an intersection of built trees is the intersection of itself. -/
theorem intersect_singleton {l : List Regex} {e : Regex} (hl : ∀ x ∈ l, x.Built)
    (h : intersect l = .ok e) : intersect [e] = .ok e := by
  obtain ⟨cs, hcs, rfl⟩ := map_eq_ok_iff.1 h
  have hoperand : ∀ x ∈ operandsAll l, x.Fit builtDemands ∧ x.isIntersection = false := by
    intro x hx
    rw [operandsAll_eq_flatMap, List.mem_flatMap] at hx
    obtain ⟨f, hf, hx⟩ := hx
    exact fit_of_mem_operands (hl f hf).fit hx
  have hfit : ∀ c ∈ cs, c.Fit builtDemands := by
    intro c hc
    obtain ⟨x, hx, hxc⟩ := exists_mem_of_mapM_ok hcs hc
    obtain ⟨hxfit, hi⟩ := hoperand x hx
    exact fit_conjunct closed_builtDemands (fun _ _ => trivial) hxfit hi hxc
  have htidy : (excluded cs).Tidy := by
    rcases excluded_eq_empty_or closed_builtDemands hfit with hempty | htidy
    · exact hempty ▸ CharSet.tidy_empty
    · exact htidy
  by_cases hr : required cs = []
  · -- Nothing is required: the one operand is the complement of the excluded set.
    rw [conjunction_of_required_eq_nil hr]
    show Except.ok (conjunction [.without (excluded cs)]) = _
    have hnone : required [.without (excluded cs)] = [] := rfl
    rw [conjunction_of_required_eq_nil hnone]
    have hsame : excluded [.without (excluded cs)] = excluded cs := CharSet.empty_union htidy
    rw [hsame]
  · have hrequired : ∀ e ∈ required cs,
        e.conjunct = .ok (.within e) ∧ e.isIntersection = false := by
      intro e he
      have hmem := mem_required.1 he
      obtain ⟨x, -, hxe⟩ := exists_mem_of_mapM_ok hcs hmem
      exact ⟨conjunct_of_conjunct hxe, (hfit _ hmem).2.2.1⟩
    have hagain := intersect_ofConjuncts htidy hrequired
    rwa [← conjunction_of_required_ne_nil hr] at hagain

/-! ## Building again -/

/-- **What is built is not changed by building it again**: a sequence, a choice and an intersection
    of trees that were built are the sequence, the choice and the intersection of themselves alone.
    A sequence in a list may as well be replaced by what it is made of, wherever it stands; literals
    that meet at its ends merge as they do in the flat list. -/
theorem rebuild_of_built :
    (∀ l : List Regex, seq [seq l] = seq l) ∧
    (∀ l : List Regex, (∀ e ∈ l, e.Built) → alt [alt l] = alt l) ∧
    (∀ (l : List Regex) (e : Regex), (∀ x ∈ l, x.Built) → intersect l = .ok e →
      intersect [e] = .ok e) ∧
    ∀ l m k : List Regex, seq (l ++ [seq m] ++ k) = seq (l ++ m ++ k) := by
  refine ⟨?_, ?_, ?_, ?_⟩
  · intro l
    have hgroup := seq_append_seq [] l []
    rwa [List.nil_append, List.nil_append, List.append_nil] at hgroup
  · intro l hl
    exact alt_singleton (Built.alt hl).fit.isNormal
  · intro l e hl h
    exact intersect_singleton hl h
  · intro l m k
    rw [List.append_assoc, List.singleton_append]
    exact seq_append_seq l m k

/-- A choice that folds into a set, a choice that does not, and an intersection whose complements
    come from two operands; and a sequence with a literal at each end, between two literals. -/
theorem rebuild_of_built_merging :
    let ab : List Regex := [.text ['a'], .text ['b']]
    let word : List Regex := [.text ['a'], .text ['b', 'c']]
    let digit : Regex := .set (.of (.posix .digit))
    let without : Char → Regex := fun c => .complement (.set (.of (.char c)))
    let both : Regex := .intersection [digit, .complement (.set ⟨['5', '7'], [], []⟩)]
    ((∀ e ∈ ab, e.Built) ∧ alt [alt ab] = alt ab ∧ alt ab = .set ⟨['a', 'b'], [], []⟩) ∧
      ((∀ e ∈ word, e.Built) ∧ alt [alt word] = alt word ∧ alt word = .choice word) ∧
      ((∀ e ∈ [without '5', digit, without '7'], e.Built) ∧
        intersect [without '5', digit, without '7'] = .ok both ∧ intersect [both] = .ok both) ∧
      seq ([.text ['a']] ++ [seq [.text ['b'], .group .empty, .text ['c']]] ++ [.text ['d']]) =
        .sequence [.literal ['a', 'b'], .group .empty, .literal ['c', 'd']] := by
  intro ab word digit without both
  have hpair : ∀ t u : List Char, ∀ e ∈ [Regex.text t, Regex.text u], e.Built := by
    intro t u e he
    rcases List.mem_pair.1 he with rfl | rfl
    · exact .text t
    · exact .text u
  have hoperands : ∀ e ∈ [without '5', digit, without '7'], e.Built := by
    intro e he
    simp only [List.mem_cons, List.not_mem_nil, or_false] at he
    rcases he with rfl | rfl | rfl
    · exact .negate (.text ['5']) rfl
    · exact .set (.adjoin .empty nofun)
    · exact .negate (.text ['7']) rfl
  obtain ⟨-, halt, hintersect, hseq⟩ := rebuild_of_built
  exact ⟨⟨hpair _ _, halt ab (hpair _ _), rfl⟩, ⟨hpair _ _, halt word (hpair _ _), rfl⟩,
    ⟨hoperands, rfl, hintersect _ both hoperands rfl⟩, (hseq _ _ _).trans rfl⟩

end RegexDialects.Regex
