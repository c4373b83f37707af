import RegexDialects.Proofs.Outcome
import RegexDialects.Proofs.PlainSet
import RegexDialects.Proofs.Sequence

/-!
# What the constructors keep

Every function that builds trees returns a tree in normal form when its arguments are. Beyond normal
form there are demands on what the nodes hold: on the plain sets, on the bounds of repetitions, on
the parts of intersections (`Demands`). Constructors merge sets, so a demand on sets is kept where
it survives unions (`Demands.Closed`).

`Fit D` is normal form and the demands at once, and there is one lemma for each constructor.
-/

set_option autoImplicit false

namespace RegexDialects.Regex

/-! ## Demands -/

/-- What is asked of the contents of nodes, beyond normal form. -/
structure Demands where
  set : CharSet → Prop
  bounds : Nat → Option Nat → Prop
  /-- What is asked of each part of an intersection. -/
  part : Regex → Prop

/-- Whether a node meets demands. -/
def Meets (D : Demands) : Regex → Prop
  | .set s => D.set s
  | .repetition least most _ _ => D.bounds least most
  | .intersection l => ∀ e ∈ l, D.part e
  | _ => True

/-- Whether a tree is in normal form and meets demands, at every node. -/
def Fit (D : Demands) (e : Regex) : Prop :=
  e.Everywhere fun x => x.IsNormal ∧ x.Meets D

/-- Demands that single characters meet, and unions of sets that do, and where the complement of a
    set may be part of an intersection. -/
structure Demands.Closed (D : Demands) : Prop where
  char : ∀ c, D.set (.of (.char c))
  union : ∀ {s t}, s = .empty ∨ D.set s → D.set t → D.set (s.union t)
  exclusion : ∀ s, D.part (.complement (.set s))

variable {D : Demands}

theorem Fit.normal {e : Regex} (h : e.Fit D) : e.Normal := by
  refine Everywhere.imp h ?_
  intro x hx
  exact hx.1

theorem Fit.isNormal {e : Regex} (h : e.Fit D) : e.IsNormal :=
  h.self.1

/-- Demands may be weakened. -/
theorem Fit.imp {D' : Demands} {e : Regex} (h : e.Fit D)
    (hD : ∀ x : Regex, x.Meets D → x.Meets D') : e.Fit D' := by
  refine Everywhere.imp h ?_
  intro x hx
  exact ⟨hx.1, hD x hx.2⟩

section Equations

attribute [local simp] Fit IsNormal Meets

@[simp] theorem fit_empty : (empty : Regex).Fit D := by
  simp

@[simp] theorem fit_literal {t : List Char} : (literal t).Fit D ↔ t ≠ [] := by
  simp

@[simp] theorem fit_primitive {p : Primitive} : (primitive p).Fit D := by
  simp

@[simp] theorem fit_sequence {l : List Regex} :
    (sequence l).Fit D ↔ IsNormal (.sequence l) ∧ ∀ e ∈ l, e.Fit D := by
  simp

@[simp] theorem fit_choice {l : List Regex} :
    (choice l).Fit D ↔ IsNormal (.choice l) ∧ ∀ e ∈ l, e.Fit D := by
  simp

@[simp] theorem fit_repetition {n : Nat} {m : Option Nat} {g : Bool} {e : Regex} :
    (repetition n m g e).Fit D ↔ ((∀ k ∈ m, n ≤ k ∧ k ≠ 0) ∧ D.bounds n m) ∧ e.Fit D := by
  simp

@[simp] theorem fit_group {e : Regex} : (group e).Fit D ↔ e.Fit D := by
  simp

@[simp] theorem fit_backref {n : Nat} : (backref n).Fit D ↔ 1 ≤ n := by
  simp

@[simp] theorem fit_syntaxClass {k : SyntaxClass} : (syntaxClass k).Fit D := by
  simp

@[simp] theorem fit_category {k : Category} : (category k).Fit D := by
  simp

@[simp] theorem fit_set {s : CharSet} : (set s).Fit D ↔ D.set s := by
  simp

@[simp] theorem fit_complement {e : Regex} :
    (complement e).Fit D ↔ e.isNegatable = true ∧ e.Fit D := by
  simp

@[simp] theorem fit_intersection {l : List Regex} :
    (intersection l).Fit D ↔
      (IsNormal (.intersection l) ∧ ∀ e ∈ l, D.part e) ∧ ∀ e ∈ l, e.Fit D := by
  simp

end Equations

/-! ## Texts and sequences -/

theorem fit_text (t : List Char) : (text t).Fit D := by
  unfold text
  split
  · exact fit_empty
  · next h => exact fit_literal.2 (by simpa using h)

/-- A fit tree has fit parts, however deep sequences were nested in it. -/
theorem fit_of_mem_parts {e x : Regex} (h : e.Fit D) (hx : x ∈ e.parts) : x.Fit D := by
  induction e using inductionOn with
  | empty => simp [parts] at hx
  | sequence l ih =>
    rw [parts, partsAll_eq_flatMap, List.mem_flatMap] at hx
    obtain ⟨e, he, hx⟩ := hx
    exact ih e he ((fit_sequence.1 h).2 e he) hx
  | _ => rw [parts, List.mem_singleton] at hx <;> first | exact hx ▸ h | simp

/-- The tree of parts that are merged and fit is fit. -/
theorem fit_ofParts {l : List Regex} (hl : ∀ e ∈ l, e.Fit D) (hp : ∀ e ∈ l, e.isPart = true)
    (ha : Apart l) : (ofParts l).Fit D := by
  match l with
  | [] => exact fit_empty
  | [e] => exact hl e List.mem_cons_self
  | e :: f :: l =>
    exact fit_sequence.2
      ⟨⟨by simp, fun x hx => isPart_eq_true_iff.1 (hp x hx), ha⟩, hl⟩

/-- A sequence of fit trees is fit: its parts are, and neighbouring texts have merged. -/
theorem fit_seq {l : List Regex} (hl : ∀ e ∈ l, e.Fit D) : (seq l).Fit D := by
  rw [seq_eq_ofParts]
  have hparts : ∀ x ∈ partsAll l, x.Fit D := by
    intro x hx
    rw [partsAll_eq_flatMap, List.mem_flatMap] at hx
    obtain ⟨e, he, hx⟩ := hx
    exact fit_of_mem_parts (hl e he) hx
  refine fit_ofParts ?_ (isPart_of_mem_joinText fun _ hx => isPart_of_mem_partsAll hx)
    (apart_joinText _)
  exact forall_mem_joinText
    (fun t u ht => fit_literal.2 (List.append_ne_nil_of_left_ne_nil (fit_literal.1 ht) u)) hparts

/-! ## Choices -/

theorem Fit.set_of_plainSet? (hD : D.Closed) {e : Regex} (h : e.Fit D) {s : CharSet}
    (hs : e.plainSet? = some s) : D.set s := by
  unfold plainSet? at hs
  split at hs
  · cases hs
    exact fit_set.1 h
  · cases hs
    exact hD.char _
  · simp at hs

theorem Demands.Closed.foldl_union (hD : D.Closed) {l : List CharSet} {s : CharSet}
    (hs : D.set s) (hl : ∀ t ∈ l, D.set t) : D.set (l.foldl .union s) := by
  induction l generalizing s with
  | nil => exact hs
  | cons t l ih =>
    apply ih (hD.union (Or.inr hs) (hl t List.mem_cons_self))
    intro u hu
    exact hl u (List.mem_cons_of_mem _ hu)

/-- The union of sets that meet demands, if there are any. -/
theorem Demands.Closed.union_all (hD : D.Closed) {l : List CharSet} (hl : ∀ t ∈ l, D.set t)
    (hn : l ≠ []) : D.set (l.foldl .union .empty) := by
  obtain ⟨s, l, rfl⟩ := List.exists_cons_of_ne_nil hn
  rw [List.foldl_cons]
  apply hD.foldl_union (hD.union (Or.inl rfl) (hl s List.mem_cons_self))
  intro t ht
  exact hl t (List.mem_cons_of_mem _ ht)

theorem map_plainSet?_of_mapM {l : List Regex} {sets : List CharSet}
    (h : l.mapM plainSet? = some sets) : l.map plainSet? = sets.map some := by
  induction l generalizing sets with
  | nil =>
    cases h
    rfl
  | cons e l ih =>
    rw [List.mapM_cons] at h
    obtain ⟨s, hs, h⟩ := Option.bind_eq_some_iff.1 h
    obtain ⟨ts, hts, h⟩ := Option.bind_eq_some_iff.1 h
    cases h
    rw [List.map_cons, List.map_cons, hs, ih hts]

/-- The sets that branches fold into are those of the branches. -/
theorem exists_mem_of_mapM {l : List Regex} {sets : List CharSet}
    (h : l.mapM plainSet? = some sets) {s : CharSet} (hs : s ∈ sets) :
    ∃ e ∈ l, e.plainSet? = some s := by
  have hm : some s ∈ l.map plainSet? := by
    rw [map_plainSet?_of_mapM h]
    exact List.mem_map_of_mem hs
  exact List.mem_map.1 hm

/-- The sets of all branches are among those. -/
theorem exists_plainSet?_of_mapM {l : List Regex} {sets : List CharSet}
    (h : l.mapM plainSet? = some sets) {e : Regex} (he : e ∈ l) :
    ∃ s ∈ sets, e.plainSet? = some s := by
  have hm : e.plainSet? ∈ sets.map some := by
    rw [← map_plainSet?_of_mapM h]
    exact List.mem_map_of_mem he
  obtain ⟨s, hs, heq⟩ := List.mem_map.1 hm
  exact ⟨s, hs, heq.symm⟩

/-- One branch that is not plain keeps the others from becoming a set. -/
theorem mapM_plainSet?_eq_none {l : List Regex} :
    l.mapM plainSet? = none ↔ ∃ e ∈ l, e.isPlain = false := by
  induction l with
  | nil => simp
  | cons e l ih =>
    rw [List.mapM_cons]
    cases he : e.plainSet? <;> cases hl : l.mapM plainSet? <;>
      simp_all [isPlain]

/-- What is no choice is a branch itself, unless it fails. -/
theorem branches_of_ne {e : Regex} (hc : e.isChoice = false) (hf : e ≠ fail) :
    e.branches = [e] := by
  unfold branches
  split
  · simp [isChoice] at hc
  · rw [if_neg fun h => hf (isFail_eq_true_iff.1 h)]

theorem branches_fail : fail.branches = [] := rfl

theorem mem_branches {e x : Regex} (h : x ∈ e.branches) :
    (∃ l, e = .choice l ∧ x ∈ l) ∨ (x = e ∧ e.isChoice = false ∧ e ≠ fail) := by
  by_cases hf : e = fail
  · rw [hf, branches_fail] at h
    exact absurd h List.not_mem_nil
  · cases hc : e.isChoice with
    | true =>
      cases e <;> simp [isChoice] at hc
      exact Or.inl ⟨_, rfl, h⟩
    | false =>
      rw [branches_of_ne hc hf, List.mem_singleton] at h
      exact Or.inr ⟨h, rfl, hf⟩

/-- What a fit tree contributes to a choice is fit to stand in one. -/
theorem fit_of_mem_branches {e x : Regex} (he : e.Fit D) (hx : x ∈ e.branches) :
    x.Fit D ∧ x.isChoice = false ∧ x ≠ fail := by
  rcases mem_branches hx with ⟨l, rfl, hx⟩ | ⟨rfl, hc, hf⟩
  · obtain ⟨⟨-, hl, -⟩, hall⟩ := fit_choice.1 he
    exact ⟨hall x hx, hl x hx⟩
  · exact ⟨he, hc, hf⟩

/-- Only what fails contributes nothing to a choice. -/
theorem eq_fail_of_branches_eq_nil {e : Regex} (he : e.IsNormal) (h : e.branches = []) :
    e = fail := by
  cases hc : e.isChoice with
  | true =>
    cases e <;> simp [isChoice] at hc
    have hl := he.1
    rw [branches] at h
    rw [h] at hl
    simp at hl
  | false =>
    apply Decidable.byContradiction
    intro hf
    rw [branches_of_ne hc hf] at h
    exact List.cons_ne_nil _ _ h

/-- The tree of branches: one set, if all are plain. -/
def ofBranches : List Regex → Regex
  | [] => fail
  | [e] => e
  | l =>
    match l.mapM plainSet? with
    | some sets => .set (sets.foldl .union .empty)
    | none => .choice l

theorem alt_eq_ofBranches (l : List Regex) : alt l = ofBranches (l.flatMap branches) := by
  rw [alt]
  rfl

theorem ofBranches_of_plain {e f : Regex} {l : List Regex} {sets : List CharSet}
    (h : (e :: f :: l).mapM plainSet? = some sets) :
    ofBranches (e :: f :: l) = .set (sets.foldl .union .empty) := by
  simp only [ofBranches, h]

theorem ofBranches_of_not_plain {e f : Regex} {l : List Regex}
    (h : (e :: f :: l).mapM plainSet? = none) :
    ofBranches (e :: f :: l) = .choice (e :: f :: l) := by
  simp only [ofBranches, h]

theorem ofBranches_of_isNormal {l : List Regex} (h : IsNormal (.choice l)) :
    ofBranches l = .choice l := by
  match l, h.1 with
  | _ :: _ :: _, _ => exact ofBranches_of_not_plain (mapM_plainSet?_eq_none.2 h.2.2)

theorem flatMap_branches {l : List Regex} (h : ∀ e ∈ l, e.isChoice = false ∧ e ≠ fail) :
    l.flatMap branches = l := by
  induction l with
  | nil => rfl
  | cons e l ih =>
    obtain ⟨hc, hf⟩ := h e List.mem_cons_self
    have hl : ∀ x ∈ l, x.isChoice = false ∧ x ≠ fail := by
      intro x hx
      exact h x (List.mem_cons_of_mem _ hx)
    rw [List.flatMap_cons, branches_of_ne hc hf, ih hl]
    rfl

/-- A choice in normal form is what its branches make. -/
theorem alt_of_isNormal {l : List Regex} (h : IsNormal (.choice l)) : alt l = .choice l := by
  rw [alt_eq_ofBranches, flatMap_branches h.2.1, ofBranches_of_isNormal h]

/-- A choice of one tree is that tree. -/
theorem alt_singleton {e : Regex} (h : e.IsNormal) : alt [e] = e := by
  rw [alt_eq_ofBranches, List.flatMap_cons, List.flatMap_nil, List.append_nil]
  by_cases hf : e = fail
  · rw [hf]
    rfl
  · cases hc : e.isChoice with
    | true =>
      cases e <;> simp [isChoice] at hc
      exact ofBranches_of_isNormal h
    | false =>
      rw [branches_of_ne hc hf]
      rfl

theorem fit_ofBranches (hD : D.Closed) {l : List Regex}
    (hl : ∀ e ∈ l, e.Fit D ∧ e.isChoice = false ∧ e ≠ fail) (hn : l ≠ []) :
    (ofBranches l).Fit D := by
  match l with
  | [] => exact absurd rfl hn
  | [e] => exact (hl e List.mem_cons_self).1
  | e :: f :: l =>
    cases hm : (e :: f :: l).mapM plainSet? with
    | some sets =>
      -- All branches are plain, and their sets are in order.
      have hset : ∀ s ∈ sets, D.set s := by
        intro s hs
        obtain ⟨x, hx, hxs⟩ := exists_mem_of_mapM hm hs
        exact (hl x hx).1.set_of_plainSet? hD hxs
      rw [ofBranches_of_plain hm]
      have hlen := congrArg List.length (map_plainSet?_of_mapM hm)
      refine fit_set.2 (hD.union_all hset ?_)
      rintro rfl
      simp at hlen
    | none =>
      rw [ofBranches_of_not_plain hm]
      exact fit_choice.2
        ⟨⟨by simp, fun x hx => (hl x hx).2, mapM_plainSet?_eq_none.1 hm⟩,
          fun x hx => (hl x hx).1⟩

/-- A choice of fit trees is fit. Without a branch it fails, which is a demand on the empty set. -/
theorem fit_alt (hD : D.Closed) {l : List Regex} (hl : ∀ e ∈ l, e.Fit D)
    (h0 : D.set .empty ∨ l ≠ []) : (alt l).Fit D := by
  rw [alt_eq_ofBranches]
  by_cases hb : l.flatMap branches = []
  · rw [hb]
    refine fit_set.2 (h0.elim id ?_)
    intro hn
    -- Some branch is there, and it contributes nothing.
    obtain ⟨e, l', rfl⟩ := List.exists_cons_of_ne_nil hn
    have he := hl e List.mem_cons_self
    have hf := eq_fail_of_branches_eq_nil he.isNormal (List.flatMap_eq_nil_iff.1 hb e
      List.mem_cons_self)
    rw [hf] at he
    exact fit_set.1 he
  · refine fit_ofBranches hD ?_ hb
    intro x hx
    obtain ⟨e, he, hx⟩ := List.mem_flatMap.1 hx
    exact fit_of_mem_branches (hl e he) hx

/-! ## Repetitions and references -/

/-- A repetition that may not occur is the empty tree; any other one has its bounds in order. -/
theorem repeated_cases {least : Nat} {most : Option Nat} {g : Bool} {e e' : Regex}
    (h : repeated least most g e = .ok e') :
    (most = some 0 ∧ e' = .empty) ∨
      ((∀ m ∈ most, least ≤ m ∧ m ≠ 0) ∧ e' = .repetition least most g e) := by
  unfold repeated at h
  split at h
  · cases h
    exact Or.inr ⟨nofun, rfl⟩
  · next m =>
    split at h
    · cases h
    · next hle =>
      split at h
      · next h0 =>
        cases h
        exact Or.inl ⟨congrArg some h0, rfl⟩
      · next h0 =>
        cases h
        refine Or.inr ⟨?_, rfl⟩
        intro k hk
        cases hk
        exact ⟨Nat.le_of_not_lt hle, h0⟩

/-- A repetition of a fit tree is fit. -/
theorem fit_repeated {least : Nat} {most : Option Nat} {g : Bool} {e e' : Regex}
    (h : repeated least most g e = .ok e') (he : e.Fit D) (hb : D.bounds least most) :
    e'.Fit D := by
  rcases repeated_cases h with ⟨-, rfl⟩ | ⟨horder, rfl⟩
  · exact fit_empty
  · exact fit_repetition.2 ⟨⟨horder, hb⟩, he⟩

theorem fit_reference {n : Nat} {e : Regex} (h : reference n = .ok e) : e.Fit D := by
  unfold reference at h
  split at h
  · simp at h
  · next h0 =>
    cases h
    exact fit_backref.2 (Nat.one_le_iff_ne_zero.2 h0)

/-! ## Unions and complements -/

/-- Which operands stay symbolic in a union. -/
def isSymbolic (e : Regex) : Bool :=
  e.plainSet?.isNone

theorem union_of_filterMap_eq_cons {l : List Regex} {s : CharSet} {sets : List CharSet}
    (h : l.filterMap plainSet? = s :: sets) :
    union l = alt (l.takeWhile isSymbolic ++ .set (sets.foldl .union s) ::
      (l.dropWhile isSymbolic).filter isSymbolic) := by
  rw [union, h]
  rfl

theorem union_of_filterMap_eq_nil {l : List Regex} (h : l.filterMap plainSet? = []) :
    union l = alt l := by
  rw [union, h]

/-- What holds of the operands and of the set that the plain ones become holds of all that a union
    is made of. -/
theorem forall_mem_gathered {P : Regex → Prop} {l : List Regex} {s : CharSet} (hs : P (.set s))
    (hl : ∀ e ∈ l, P e) :
    ∀ e ∈ l.takeWhile isSymbolic ++ .set s :: (l.dropWhile isSymbolic).filter isSymbolic, P e := by
  intro e he
  rcases List.mem_append.1 he with he | he
  · exact hl e ((List.takeWhile_prefix _).subset he)
  · rcases List.mem_cons.1 he with rfl | he
    · exact hs
    · exact hl e ((List.dropWhile_suffix _).subset (List.mem_of_mem_filter he))

/-- Plain operands that stand together become one set, in their place. -/
theorem union_of_block {before plains after : List Regex} {s : CharSet} {sets : List CharSet}
    (hb : ∀ e ∈ before, isSymbolic e = true) (ha : ∀ e ∈ after, isSymbolic e = true)
    (hp : plains.map plainSet? = (s :: sets).map some) :
    union (before ++ (plains ++ after)) =
      alt (before ++ .set (sets.foldl .union s) :: after) := by
  have hnone : ∀ {l : List Regex}, (∀ e ∈ l, isSymbolic e = true) →
      l.filterMap plainSet? = [] := by
    intro l hl
    apply List.filterMap_eq_nil_iff.2
    intro e he
    exact Option.isNone_iff_eq_none.1 (hl e he)
  -- The sets of all operands are those of the plain ones, and the first of them ends what stands
  -- before.
  have hplain : plains.filterMap plainSet? = s :: sets := by
    have hid := congrArg (List.filterMap id) hp
    rwa [List.filterMap_map, List.filterMap_map, Function.id_comp, Function.id_comp,
      List.filterMap_some] at hid
  have hsym : ∀ e ∈ plains, isSymbolic e = false := by
    intro e he
    have hmem : e.plainSet? ∈ (s :: sets).map some := by
      rw [← hp]
      exact List.mem_map_of_mem he
    obtain ⟨t, -, ht⟩ := List.mem_map.1 hmem
    rw [isSymbolic, ← ht]
    rfl
  obtain ⟨p, ps, rfl⟩ : ∃ p ps, plains = p :: ps := by
    apply List.exists_cons_of_ne_nil
    intro hn
    rw [hn] at hplain
    cases hplain
  have hfirst : isSymbolic p = false := hsym p List.mem_cons_self
  have hall : (before ++ (p :: ps ++ after)).filterMap plainSet? = s :: sets := by
    rw [List.filterMap_append, List.filterMap_append, hnone hb, hnone ha, hplain,
      List.append_nil, List.nil_append]
  have htake : (before ++ (p :: ps ++ after)).takeWhile isSymbolic = before := by
    rw [List.takeWhile_append_of_pos hb, List.cons_append, List.takeWhile_cons, hfirst]
    exact List.append_nil before
  have hdrop : (before ++ (p :: ps ++ after)).dropWhile isSymbolic = p :: ps ++ after := by
    rw [List.dropWhile_append_of_pos hb, List.cons_append, List.dropWhile_cons, hfirst]
    rfl
  have hfilter : (p :: ps ++ after).filter isSymbolic = after := by
    rw [List.filter_append, List.filter_eq_self.2 ha, List.filter_eq_nil_iff.2, List.nil_append]
    intro e he
    rw [hsym e he]
    exact Bool.false_ne_true
  rw [union_of_filterMap_eq_cons hall, htake, hdrop, hfilter]

/-- A union of fit trees is fit. Its plain operands become one set, and that is fit, too. -/
theorem fit_union (hD : D.Closed) {l : List Regex} (hl : ∀ e ∈ l, e.Fit D)
    (h0 : D.set .empty ∨ l ≠ []) : (union l).Fit D := by
  cases h : l.filterMap plainSet? with
  | nil =>
    rw [union_of_filterMap_eq_nil h]
    exact fit_alt hD hl h0
  | cons s sets =>
    rw [union_of_filterMap_eq_cons h]
    have hset : ∀ t ∈ s :: sets, D.set t := by
      intro t ht
      rw [← h, List.mem_filterMap] at ht
      obtain ⟨e, he, hs⟩ := ht
      exact (hl e he).set_of_plainSet? hD hs
    have hunion : D.set (sets.foldl .union s) := by
      apply hD.foldl_union (hset s List.mem_cons_self)
      intro t ht
      exact hset t (List.mem_cons_of_mem _ ht)
    exact fit_alt hD (forall_mem_gathered (fit_set.2 hunion) hl) (Or.inr (by simp))

/-- What negates a fit tree is fit, unless there is nothing that does. -/
theorem fit_negate (hD : D.Closed) {e e' : Regex} (he : e.Fit D) (h : e.negate = .ok e') :
    e'.Fit D := by
  unfold negate at h
  split at h
  · cases h
    exact (fit_complement.1 he).2
  · cases h
    exact fit_complement.2 ⟨rfl, he⟩
  · cases h
    exact fit_complement.2 ⟨rfl, he⟩
  · cases h
    exact fit_complement.2 ⟨rfl, he⟩
  · cases h
    exact fit_primitive
  · cases h
    exact fit_primitive
  · cases h
    exact fit_complement.2 ⟨rfl, fit_set.2 (hD.char _)⟩
  · simp at h

/-! ## Intersections -/

/-- What is asked of a conjunct: that the set it excludes, or the tree it requires, is fit to be in
    an intersection. -/
def Conjunct.Fit (D : Demands) : Conjunct → Prop
  | .without s => D.set s
  | .within e =>
    e.Fit D ∧ e.isCharSetLike = true ∧ e.isIntersection = false ∧ e.isExclusion = false ∧ D.part e

/-- The characters that conjuncts exclude. -/
def excluded (conjuncts : List Conjunct) : CharSet :=
  (conjuncts.filterMap Conjunct.excluded?).foldl .union .empty

/-- The trees that conjuncts require. -/
def required (conjuncts : List Conjunct) : List Regex :=
  conjuncts.filterMap Conjunct.required?

/-- The parts of the intersection of conjuncts that require something. -/
def conjuncts (conjuncts : List Conjunct) : List Regex :=
  if (excluded conjuncts).isEmpty then required conjuncts
  else required conjuncts ++ [.complement (.set (excluded conjuncts))]

theorem conjunction_of_required_eq_nil {cs : List Conjunct} (h : required cs = []) :
    conjunction cs = .complement (.set (excluded cs)) := by
  unfold required at h
  simp only [conjunction, h]
  rfl

/-- The tree of the parts of an intersection. -/
def ofConjuncts : List Regex → Regex
  | [e] => e
  | l => .intersection l

theorem ofConjuncts_of_two_le {l : List Regex} (h : 2 ≤ l.length) :
    ofConjuncts l = .intersection l := by
  match l, h with
  | _ :: _ :: _, _ => rfl

/-- What is excluded becomes one more part. -/
theorem conjunction_of_required_ne_nil {cs : List Conjunct} (h : required cs ≠ []) :
    conjunction cs = ofConjuncts (conjuncts cs) := by
  unfold conjuncts
  unfold required at h ⊢
  unfold conjunction
  split
  · next hr => exact absurd hr h
  · rfl

theorem conjuncts_ne_nil {cs : List Conjunct} (h : required cs ≠ []) : conjuncts cs ≠ [] := by
  unfold conjuncts
  split
  · exact h
  · exact List.append_ne_nil_of_left_ne_nil h _

theorem mem_required {cs : List Conjunct} {e : Regex} :
    e ∈ required cs ↔ Conjunct.within e ∈ cs := by
  rw [required, List.mem_filterMap]
  constructor
  · rintro ⟨c, hc, h⟩
    cases c with
    | without s => simp [Conjunct.required?] at h
    | within f =>
      cases h
      exact hc
  · intro h
    exact ⟨_, h, rfl⟩

theorem set_of_mem_excluded {cs : List Conjunct} (hc : ∀ c ∈ cs, c.Fit D) :
    ∀ s ∈ cs.filterMap Conjunct.excluded?, D.set s := by
  intro s hs
  obtain ⟨c, hmem, h⟩ := List.mem_filterMap.1 hs
  cases c with
  | without t =>
    cases h
    exact hc _ hmem
  | within e => simp [Conjunct.excluded?] at h

/-- Conjuncts exclude nothing, or sets that are in order. -/
theorem excluded_eq_empty_or (hD : D.Closed) {cs : List Conjunct} (hc : ∀ c ∈ cs, c.Fit D) :
    excluded cs = .empty ∨ D.set (excluded cs) := by
  by_cases h : cs.filterMap Conjunct.excluded? = []
  · refine Or.inl ?_
    rw [excluded, h]
    rfl
  · exact Or.inr (hD.union_all (set_of_mem_excluded hc) h)

/-- Conjuncts that require nothing exclude something. -/
theorem set_excluded (hD : D.Closed) {cs : List Conjunct} (hc : ∀ c ∈ cs, c.Fit D)
    (h : required cs = []) (hn : cs ≠ []) : D.set (excluded cs) := by
  apply hD.union_all (set_of_mem_excluded hc)
  intro he
  obtain ⟨c, l, rfl⟩ := List.exists_cons_of_ne_nil hn
  cases c with
  | without s => simp [Conjunct.excluded?] at he
  | within e => simp [required, Conjunct.required?] at h

theorem fit_of_mem_conjuncts (hD : D.Closed) {cs : List Conjunct} (hc : ∀ c ∈ cs, c.Fit D)
    {e : Regex} (he : e ∈ conjuncts cs) :
    e.Fit D ∧ e.isCharSetLike = true ∧ e.isIntersection = false ∧ D.part e := by
  have hreq : e ∈ required cs →
      e.Fit D ∧ e.isCharSetLike = true ∧ e.isIntersection = false ∧ D.part e := by
    intro h
    obtain ⟨h1, h2, h3, -, h5⟩ := hc _ (mem_required.1 h)
    exact ⟨h1, h2, h3, h5⟩
  unfold conjuncts at he
  split at he
  · exact hreq he
  · next hx =>
    rcases List.mem_append.1 he with he | he
    · exact hreq he
    · rw [List.mem_singleton] at he
      subst he
      have hs : D.set (excluded cs) :=
        (excluded_eq_empty_or hD hc).resolve_left fun h => hx (CharSet.isEmpty_eq_true_iff.2 h)
      exact ⟨fit_complement.2 ⟨rfl, fit_set.2 hs⟩, rfl, rfl, hD.exclusion _⟩

/-- The set that conjuncts exclude is the only complement of a set among their parts. -/
theorem countP_conjuncts {cs : List Conjunct} (hc : ∀ c ∈ cs, c.Fit D) :
    (conjuncts cs).countP isExclusion ≤ 1 := by
  have hreq : (required cs).countP isExclusion = 0 := by
    rw [List.countP_eq_zero]
    intro e he
    rw [(hc _ (mem_required.1 he)).2.2.2.1]
    exact Bool.false_ne_true
  unfold conjuncts
  split
  · omega
  · rw [List.countP_append, hreq]
    exact Nat.le_of_eq rfl

theorem fit_ofConjuncts {l : List Regex}
    (hl : ∀ e ∈ l, e.Fit D ∧ e.isCharSetLike = true ∧ e.isIntersection = false ∧ D.part e)
    (hcount : l.countP isExclusion ≤ 1) (hn : l ≠ []) : (ofConjuncts l).Fit D := by
  match l with
  | [] => exact absurd rfl hn
  | [e] => exact (hl e List.mem_cons_self).1
  | e :: f :: l =>
    refine fit_intersection.2 ⟨⟨⟨by simp, ?_, hcount⟩, ?_⟩, ?_⟩
    · intro x hx
      exact ⟨(hl x hx).2.1, (hl x hx).2.2.1⟩
    · intro x hx
      exact (hl x hx).2.2.2
    · intro x hx
      exact (hl x hx).1

theorem fit_conjunction (hD : D.Closed) {cs : List Conjunct} (hc : ∀ c ∈ cs, c.Fit D)
    (h0 : D.set .empty ∨ cs ≠ []) : (conjunction cs).Fit D := by
  by_cases hr : required cs = []
  · rw [conjunction_of_required_eq_nil hr]
    refine fit_complement.2 ⟨rfl, fit_set.2 ?_⟩
    by_cases hn : cs = []
    · subst hn
      exact h0.resolve_right fun h => h rfl
    · exact set_excluded hD hc hr hn
  · rw [conjunction_of_required_ne_nil hr]
    exact fit_ofConjuncts (fun e he => fit_of_mem_conjuncts hD hc he) (countP_conjuncts hc)
      (conjuncts_ne_nil hr)

theorem operandsAll_eq_flatMap (l : List Regex) : operandsAll l = l.flatMap operands := by
  induction l with
  | nil => rfl
  | cons e l ih => rw [operandsAll, ih, List.flatMap_cons]

theorem operands_of_ne {e : Regex} (h : e.isIntersection = false) : e.operands = [e] := by
  cases e <;> simp_all [isIntersection, operands]

/-- The operands of a fit tree are fit, and none is an intersection. -/
theorem fit_of_mem_operands {e x : Regex} (he : e.Fit D) (hx : x ∈ e.operands) :
    x.Fit D ∧ x.isIntersection = false := by
  induction e using inductionOn with
  | intersection l ih =>
    rw [operands, operandsAll_eq_flatMap, List.mem_flatMap] at hx
    obtain ⟨f, hf, hx⟩ := hx
    exact ih f hf ((fit_intersection.1 he).2 f hf) hx
  | _ =>
    rw [operands_of_ne rfl, List.mem_singleton] at hx
    subst hx
    exact ⟨he, rfl⟩

theorem fit_conjunct (hD : D.Closed) (hp : ∀ e : Regex, e.isCharSetLike = true → D.part e)
    {e : Regex} {c : Conjunct} (he : e.Fit D) (hi : e.isIntersection = false)
    (h : e.conjunct = .ok c) : c.Fit D := by
  unfold conjunct at h
  split at h
  · cases h
    exact fit_set.1 (fit_complement.1 he).2
  · cases h
    exact ⟨fit_set.2 (hD.char _), rfl, rfl, rfl, hp _ rfl⟩
  · next hset _ =>
    split at h
    · next hlike =>
      cases h
      refine ⟨he, hlike, hi, ?_, hp _ hlike⟩
      cases e with
      | complement e =>
        cases e with
        | set s => exact absurd rfl (hset s)
        | _ => rfl
      | _ => rfl
    · simp at h

theorem fit_intersect (hD : D.Closed) (h0 : D.set .empty)
    (hp : ∀ e : Regex, e.isCharSetLike = true → D.part e) {l : List Regex} {e : Regex}
    (hl : ∀ x ∈ l, x.Fit D) (h : intersect l = .ok e) : e.Fit D := by
  obtain ⟨cs, hm, h⟩ := bind_eq_ok_iff.1 h
  cases h
  refine fit_conjunction hD ?_ (Or.inl h0)
  intro c hc
  obtain ⟨x, hx, hxc⟩ := exists_mem_of_mapM_ok hm hc
  rw [operandsAll_eq_flatMap, List.mem_flatMap] at hx
  obtain ⟨f, hf, hx⟩ := hx
  obtain ⟨hfit, hi⟩ := fit_of_mem_operands (hl f hf) hx
  exact fit_conjunct hD hp hfit hi hxc

end RegexDialects.Regex
