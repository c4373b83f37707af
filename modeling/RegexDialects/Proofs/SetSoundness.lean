import RegexDialects.Proofs.Built
import RegexDialects.Proofs.SetMeaning

/-!
# The set algebra is sound

Union, complement and intersection mean what their names say, under every reading of the named
classes: a character matches the union if it matches one of the operands, the complement if it does
not match the tree, the intersection if it matches all of the operands.

An intersection is sorted into conjuncts. Opening nested intersections (`denotes_operands`) and
sorting (`holds_conjunct`) keep what is asked of a character, and sorting fails on exactly those
operands that do not match single characters (`exists_conjunct_iff`).
-/

set_option autoImplicit false

namespace RegexDialects.Regex

variable {I : Interpretation} {c : Char}

/-! ## Operands -/

/-- A tree matches what all of the operands match that it stands for. -/
theorem denotes_operands {e : Regex} :
    (∀ x ∈ e.operands, x.Denotes I c) ↔ e.Denotes I c := by
  induction e using inductionOn with
  | intersection l ih =>
    rw [operands, operandsAll_eq_flatMap, Denotes, denotesAll_iff, List.forall_mem_flatMap]
    exact forall₂_congr ih
  | _ => rw [operands_of_ne rfl, List.forall_mem_singleton]

theorem isCharSetLike_of_mem_operands {e x : Regex} (he : e.Normal)
    (hlike : e.isCharSetLike = true) (hx : x ∈ e.operands) : x.isCharSetLike = true := by
  induction e using inductionOn with
  | intersection l ih =>
    rw [operands, operandsAll_eq_flatMap, List.mem_flatMap] at hx
    obtain ⟨y, hy, hx⟩ := hx
    obtain ⟨hl, hall⟩ := everywhere_intersection.1 he
    exact ih y hy (hall y hy) (hl.2.1 y hy).1 hx
  | _ =>
    rw [operands_of_ne rfl, List.mem_singleton] at hx
    exact hx ▸ hlike

/-- What a tree in normal form stands for is a matter of single characters if the tree is. -/
theorem forall_isCharSetLike_operands {e : Regex} (he : e.Normal) :
    (∀ x ∈ e.operands, x.isCharSetLike = true) ↔ e.isCharSetLike = true := by
  constructor
  · intro h
    cases hi : e.isIntersection with
    | true =>
      cases e <;> simp [isIntersection] at hi
      rfl
    | false =>
      rw [operands_of_ne hi] at h
      exact h e List.mem_cons_self
  · intro h x hx
    exact isCharSetLike_of_mem_operands he h hx

/-! ## Conjuncts -/

/-- An operand is sorted if and only if it matches single characters. -/
theorem exists_conjunct_iff {e : Regex} :
    (∃ k, e.conjunct = .ok k) ↔ e.isCharSetLike = true := by
  unfold conjunct
  split
  · simp [isCharSetLike]
  · simp [isCharSetLike]
  · by_cases h : e.isCharSetLike = true
    · simp [h]
    · simp [h]

/-- Sorting keeps what an operand asks of a character. -/
theorem holds_conjunct {e : Regex} {k : Conjunct} (h : e.conjunct = .ok k) :
    k.Holds I c ↔ e.Denotes I c := by
  unfold conjunct at h
  split at h
  · cases h
    exact Iff.rfl
  · next d =>
    cases h
    exact (denotes_of_plainSet? (e := .literal [d]) rfl).symm
  · split at h
    · cases h
      exact Iff.rfl
    · cases h

/-- What an operand requires of a character is a matter of single characters. -/
theorem isCharSetLike_of_conjunct {e x : Regex} (h : e.conjunct = .ok (.within x)) :
    x.isCharSetLike = true := by
  unfold conjunct at h
  split at h
  · cases h
  · cases h
    rfl
  · split at h
    · next hlike =>
      cases h
      exact hlike
    · cases h

theorem isCharSetLike_ofConjuncts {l : List Regex} (h : ∀ e ∈ l, e.isCharSetLike = true) :
    (ofConjuncts l).isCharSetLike = true := by
  match l with
  | [] => rfl
  | [e] => exact h e List.mem_cons_self
  | _ :: _ :: _ => rfl

theorem isCharSetLike_conjunction {cs : List Conjunct}
    (h : ∀ e ∈ required cs, e.isCharSetLike = true) : (conjunction cs).isCharSetLike = true := by
  by_cases hr : required cs = []
  · rw [conjunction_of_required_eq_nil hr]
    rfl
  · rw [conjunction_of_required_ne_nil hr]
    apply isCharSetLike_ofConjuncts
    unfold conjuncts
    split
    · exact h
    · intro e he
      rcases List.mem_append.1 he with he | he
      · exact h e he
      · rw [List.mem_singleton.1 he]
        rfl

/-! ## Complements -/

/-- Only what matches single characters has a complement, and the complement matches single
    characters too. -/
theorem isCharSetLike_negate {e e' : Regex} (he : e.Normal) (h : e.negate = .ok e') :
    e.isCharSetLike = true ∧ e'.isCharSetLike = true := by
  unfold negate at h
  split at h
  · next f =>
    cases h
    have hf : e'.isNegatable = true := (everywhere_complement.1 he).1
    refine ⟨rfl, ?_⟩
    rcases isNegatable_iff.1 hf with ⟨s, rfl⟩ | ⟨k, rfl⟩ | ⟨k, rfl⟩ <;> rfl
  all_goals cases h
  all_goals exact ⟨rfl, rfl⟩

/-! ## Intersections -/

/-- Operands in normal form have an intersection if and only if all of them match single
    characters. -/
theorem exists_intersect_iff {l : List Regex} (hl : ∀ e ∈ l, e.Normal) :
    (∃ e, intersect l = .ok e) ↔ ∀ e ∈ l, e.isCharSetLike = true := by
  unfold intersect
  rw [exists_map_eq_ok_iff, exists_mapM_eq_ok_iff, operandsAll_eq_flatMap,
    List.forall_mem_flatMap]
  simp only [exists_conjunct_iff]
  exact forall₂_congr fun e he => forall_isCharSetLike_operands (hl e he)

/-- An intersection matches what all of the operands match. -/
theorem denotes_intersect {l : List Regex} {e : Regex} (h : intersect l = .ok e) :
    e.Denotes I c ↔ ∀ x ∈ l, x.Denotes I c := by
  obtain ⟨cs, hcs, rfl⟩ := map_eq_ok_iff.1 h
  have hops : (∀ k ∈ cs, k.Holds I c) ↔ ∀ x ∈ operandsAll l, x.Denotes I c := by
    constructor
    · intro hall x hx
      obtain ⟨k, hk, hxk⟩ := exists_value_of_mapM_ok hcs hx
      exact (holds_conjunct hxk).1 (hall k hk)
    · intro hall k hk
      obtain ⟨x, hx, hxk⟩ := exists_mem_of_mapM_ok hcs hk
      exact (holds_conjunct hxk).2 (hall x hx)
  rw [denotes_conjunction, hops, operandsAll_eq_flatMap, List.forall_mem_flatMap]
  exact forall₂_congr fun x _ => denotes_operands

theorem isCharSetLike_intersect {l : List Regex} {e : Regex} (h : intersect l = .ok e) :
    e.isCharSetLike = true := by
  obtain ⟨cs, hcs, rfl⟩ := map_eq_ok_iff.1 h
  apply isCharSetLike_conjunction
  intro x hx
  obtain ⟨y, -, hy⟩ := exists_mem_of_mapM_ok hcs (mem_required.1 hx)
  exact isCharSetLike_of_conjunct hy

/-! ## Soundness -/

/-- **Union, complement and intersection of trees are union, complement and intersection of the
    characters that these match**, under every reading of the named classes. A union of trees that
    match single characters matches single characters, whatever has a complement does, and an
    intersection is there if and only if all of its operands do. -/
theorem denotes_setAlgebra (I : Interpretation) :
    (∀ l : List Regex, (∀ e ∈ l, e.Built) → (∀ e ∈ l, e.isCharSetLike = true) →
      (union l).isCharSetLike = true ∧
        ∀ c, (union l).Denotes I c ↔ ∃ e ∈ l, e.Denotes I c) ∧
    (∀ e e' : Regex, e.Built → e.negate = .ok e' →
      (e.isCharSetLike = true ∧ e'.isCharSetLike = true) ∧
        ∀ c, e'.Denotes I c ↔ ¬ e.Denotes I c) ∧
    (∀ l : List Regex, (∀ e ∈ l, e.Built) →
      ((∃ e, intersect l = .ok e) ↔ ∀ e ∈ l, e.isCharSetLike = true) ∧
        ∀ e, intersect l = .ok e →
          e.isCharSetLike = true ∧ ∀ c, e.Denotes I c ↔ ∀ x ∈ l, x.Denotes I c) := by
  refine ⟨?_, ?_, ?_⟩
  · intro l _ hlike
    exact ⟨isCharSetLike_union hlike, fun c => denotes_union⟩
  · intro e e' he h
    exact ⟨isCharSetLike_negate he.fit.normal h, fun c => denotes_negate h⟩
  · intro l hl
    refine ⟨exists_intersect_iff fun e he => (hl e he).fit.normal, ?_⟩
    intro e h
    exact ⟨isCharSetLike_intersect h, fun c => denotes_intersect h⟩

/-- The reading of names by the digits and letters of ASCII. -/
def asciiReading : Interpretation where
  posix k c := (k = .digit ∧ c.isDigit = true) ∨ (k = .alpha ∧ c.isAlpha = true)
  wordChar c := c.isAlphanum = true
  syntaxClass _ _ := False
  category _ _ := False

/-- Operands of all sorts: a class, a complement, and an intersection with a complement inside. -/
def mixedOperands : List Regex :=
  [.set (.of (.posix .digit)), .complement (.set (.of (.char '5'))),
    .intersection [.primitive .wordChar, .complement (.set (.of (.char '7')))]]

/-- Two complements, one of them inside an intersection, are collected into one. -/
theorem denotes_setAlgebra_mixedOperands :
    ((union mixedOperands).isCharSetLike = true ∧
      ((union mixedOperands).Denotes asciiReading '5' ↔
        ∃ e ∈ mixedOperands, e.Denotes asciiReading '5')) ∧
    (negate (.literal ['5']) = .ok (.complement (.set (.of (.char '5')))) ∧
      ((complement (.set (.of (.char '5')))).Denotes asciiReading '5' ↔
        ¬ (literal ['5']).Denotes asciiReading '5')) ∧
    (intersect mixedOperands = .ok (.intersection [.set (.of (.posix .digit)),
        .primitive .wordChar, .complement (.set ⟨['5', '7'], [], []⟩)]) ∧
      ((intersection [.set (.of (.posix .digit)), .primitive .wordChar,
          .complement (.set ⟨['5', '7'], [], []⟩)]).Denotes asciiReading '3' ↔
        ∀ e ∈ mixedOperands, e.Denotes asciiReading '3')) := by
  have hchar : ∀ c, Built (.complement (.set (.of (.char c)))) := fun c =>
    .negate (.text [c]) rfl
  have hbuilt : ∀ e ∈ mixedOperands, e.Built := by
    intro e he
    simp only [mixedOperands, List.mem_cons, List.not_mem_nil, or_false] at he
    rcases he with rfl | rfl | rfl
    · exact .set (.adjoin .empty nofun)
    · exact hchar '5'
    · refine .intersect (l := [.primitive .wordChar, .complement (.set (.of (.char '7')))]) ?_ rfl
      intro x hx
      simp only [List.mem_cons, List.not_mem_nil, or_false] at hx
      rcases hx with rfl | rfl
      · exact .primitive .wordChar
      · exact hchar '7'
  have hlike : ∀ e ∈ mixedOperands, e.isCharSetLike = true := by
    decide
  obtain ⟨hunion, hnegate, hintersect⟩ := denotes_setAlgebra asciiReading
  obtain ⟨hu, hud⟩ := hunion mixedOperands hbuilt hlike
  exact ⟨⟨hu, hud '5'⟩, ⟨rfl, (hnegate (.literal ['5']) _ (.text ['5']) rfl).2 '5'⟩,
    rfl, ((hintersect mixedOperands hbuilt).2 _ rfl).2 '3'⟩

end RegexDialects.Regex
