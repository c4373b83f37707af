import RegexDialects.Pattern.Emacs.Expression
import RegexDialects.Proofs.Assembly

/-!
# What the reader of Emacs patterns puts together

The same way down as in `Pattern/Emacs/Expression.lean`. Here a branch is read to its end before any
of it is kept, so the property goes up from the pieces. As in PCRE, what holds may depend on how
many levels of nesting are left (`Ascent`).

The reader of this dialect puts together less than the dialects have in common: its bracket
expressions know no negated class, and only `*`, `+` and `?` are lazy. So what it keeps is asked of
brackets and quantifiers as they are read (`Product`), and an `Assembly` is a case of that.
-/

set_option autoImplicit false

namespace RegexDialects.Pattern.Emacs

open Regex

/-- A property that holds of all that a reader of either dialect may put together. -/
structure Assembly (P : Regex → Prop) : Prop extends Pattern.Assembly P where
  anyPrimitive : ∀ p, P (.primitive p)
  syntaxClass : ∀ negated k, P (signed negated (.syntaxClass k))
  category : ∀ negated k, P (signed negated (.category k))

/-- A property that holds of all that the reader of this dialect puts together. -/
structure Product (P : Regex → Prop) : Prop where
  literal : ∀ c, P (.literal [c])
  primitive : ∀ p, P (.primitive p)
  syntaxClass : ∀ negated k, P (signed negated (.syntaxClass k))
  category : ∀ negated k, P (signed negated (.category k))
  backref : ∀ n, 1 ≤ n → n ≤ 9 → P (.backref n)
  brackets : ∀ {text rest e}, brackets.read text = .ok (e, rest) → P e
  group : ∀ e, P e → P (.group e)
  repeated : ∀ {text rest q e e'}, P e → readQuantifier? text = .ok (some (q, rest)) →
    repeated q.least q.most q.greedy e = .ok e' → P e'
  seq : ∀ l, (∀ e ∈ l, P e) → P (.seq l)
  alt : ∀ l, l ≠ [] → (∀ e ∈ l, P e) → P (.alt l)

/-- A property that holds of all that the reader takes for one character or position. -/
structure Leaves (P : Regex → Prop) : Prop where
  literal : ∀ c, P (.literal [c])
  primitive : ∀ p, P (.primitive p)
  syntaxClass : ∀ negated k, P (signed negated (.syntaxClass k))
  category : ∀ negated k, P (signed negated (.category k))
  backref : ∀ n, 1 ≤ n → n ≤ 9 → P (.backref n)
  brackets : ∀ {text rest e}, brackets.read text = .ok (e, rest) → P e

/-- Properties that hold of what the reader puts together with so many levels of nesting left: `A`
    of an atom, with its quantifiers or without, `P` of a piece of a branch, `W` of what stands in a
    group. -/
structure Ascent (A P W : Nat → Regex → Prop) : Prop where
  leaves : ∀ levels, Leaves (A levels)
  shy : ∀ {levels e}, W levels e → A (levels + 1) e
  group : ∀ {levels e}, W levels e → A (levels + 1) (.group e)
  repeated : ∀ {levels text rest q e e'}, A levels e → e.repeatDepth < levels →
    readQuantifier? text = .ok (some (q, rest)) →
    repeated q.least q.most q.greedy e = .ok e' → A levels e'
  piece : ∀ {levels e}, A levels e → P levels e
  seq : ∀ {levels l}, (∀ e ∈ l, P levels e) → W levels (.seq l)
  alt : ∀ {levels l}, l ≠ [] → (∀ e ∈ l, W levels e) → W levels (.alt l)

theorem Product.leaves {P : Regex → Prop} (hP : Product P) : Leaves P :=
  ⟨hP.literal, hP.primitive, hP.syntaxClass, hP.category, hP.backref, hP.brackets⟩

/-- A property of all that is put together takes no notice of levels. -/
theorem Ascent.of_product {P : Regex → Prop} (hP : Product P) :
    Ascent (fun _ => P) (fun _ => P) (fun _ => P) where
  leaves := fun _ => hP.leaves
  shy := fun h => h
  group := hP.group _
  repeated := fun he _ => hP.repeated he
  piece := fun h => h
  seq := hP.seq _
  alt := hP.alt _

/-- The reader for groups of an expression that `levels` groups may be nested in. -/
def below : Nat → Option Inside
  | 0 => none
  | levels + 1 => some (expression levels)

theorem expression_eq (levels : Nat) : expression levels = inside (below levels) levels := by
  cases levels <;> rfl

/-! ## Escapes and brackets -/

section Escapes

variable {P : Regex → Prop}

theorem spellsMembers_brackets : brackets.SpellsMembers := by
  intro whole text rest e h
  change bracketAtom whole text = _ at h
  unfold bracketAtom at h
  split at h <;> simp at h

theorem keeps_symbolEdge (hP : Leaves P) {whole text rest : List Char} {e : Regex}
    (h : symbolEdge whole text = .ok (e, rest)) : P e := by
  unfold symbolEdge at h
  split at h
  · cases h
    exact hP.primitive _
  · cases h
    exact hP.primitive _
  · simp at h

theorem keeps_syntaxCode (hP : Leaves P) {whole text rest : List Char} {negated : Bool}
    {e : Regex} (h : syntaxCode whole negated text = .ok (e, rest)) : P e := by
  unfold syntaxCode at h
  split at h
  · simp at h
  · split at h
    · cases h
      exact hP.syntaxClass _ _
    · simp at h

theorem keeps_categoryCode (hP : Leaves P) {whole text rest : List Char} {negated : Bool}
    {e : Regex} (h : categoryCode whole negated text = .ok (e, rest)) : P e := by
  unfold categoryCode at h
  split at h
  · simp at h
  · split at h
    · cases h
      exact hP.category _ _
    · simp at h

theorem toNat_sub_of_le {c : Char} (h : '1' ≤ c ∧ c ≤ '9') :
    1 ≤ c.toNat - '0'.toNat ∧ c.toNat - '0'.toNat ≤ 9 := by
  have h1 : '1'.toNat ≤ c.toNat := h.1
  have h9 : c.toNat ≤ '9'.toNat := h.2
  have h48 : '0'.toNat = 48 := rfl
  have h49 : '1'.toNat = 49 := rfl
  have h57 : '9'.toNat = 57 := rfl
  omega

theorem keeps_escape (hP : Leaves P) {groups : Nat} {text rest : List Char} {e : Regex}
    (h : escape groups text = .ok (e, rest)) : P e := by
  simp only [escape] at h
  split at h
  · simp at h
  · split at h
    · cases h
      exact hP.primitive _
    · split at h
      · exact keeps_symbolEdge hP h
      · split at h
        · exact keeps_syntaxCode hP h
        · split at h
          · exact keeps_categoryCode hP h
          · split at h
            · simp at h
            · split at h
              · next hd =>
                split at h
                · simp at h
                · cases h
                  obtain ⟨h1, h9⟩ := toNat_sub_of_le hd
                  exact hP.backref _ h1 h9
              · cases h
                exact hP.literal _

end Escapes

/-! ## Atoms and pieces -/

/-- A reader whose trees have the property. -/
def Inside.Keeps (P : Regex → Prop) (inside : Inside) : Prop :=
  ∀ {cur e cur'}, inside.read cur = .ok (e, cur') → P e

variable {A P W : Nat → Regex → Prop}

theorem keeps_wrap (hP : Ascent A P W) {levels : Nat} {e : Regex} (he : W levels e)
    (k : GroupKind) : A (levels + 1) (k.wrap e) := by
  cases k with
  | shy => exact hP.shy he
  | _ => exact hP.group he

theorem keeps_group (hP : Ascent A P W) {levels : Nat}
    (hi : ∀ n < levels, (expression n).Keeps (W n)) {cur cur' : Cursor} {e : Regex}
    (h : group (below levels) cur = .ok (e, cur')) : A levels e := by
  cases levels with
  | zero => simp [group, below] at h
  | succ levels =>
    have hi : (expression levels).Keeps (W levels) := hi levels (Nat.lt_succ_self levels)
    simp only [group, below] at h
    split at h
    · simp at h
    · split at h
      · simp at h
      · next he =>
        cases h
        exact keeps_wrap hP (hi he) _
      · simp at h

theorem keeps_atom (hP : Ascent A P W) {levels : Nat}
    (hi : ∀ n < levels, (expression n).Keeps (W n)) {cur cur' : Cursor} {e : Regex}
    (h : atom (below levels) cur = .ok (e, cur')) : A levels e := by
  have hleaves := hP.leaves levels
  unfold atom at h
  split at h
  · simp at h
  · exact keeps_group hP hi h
  · exact keeps_escape hleaves (resume_ok h)
  · exact hleaves.brackets (resume_ok h)
  · cases h
    exact hleaves.primitive _
  · cases h
    split
    · exact hleaves.primitive _
    · exact hleaves.literal _
  · cases h
    exact hleaves.literal _

theorem keeps_piece (hP : Ascent A P W) {levels : Nat}
    (hi : ∀ n < levels, (expression n).Keeps (W n)) {atStart : Bool} {cur cur' : Cursor}
    {e : Regex} (h : piece (below levels) levels atStart cur = .ok (e, cur')) : P levels e := by
  apply hP.piece
  unfold piece at h
  split at h
  · cases h
    exact (hP.leaves levels).primitive _
  · split at h
    · simp at h
    · next ha =>
      refine keeps_quantified_within (g := quantifiers) levels ?_ (keeps_atom hP hi ha) ?_
        (resume_ok h)
      · intro _ _ _ _ _ he hlt hq hr
        exact hP.repeated he hlt hq hr
      · intro hb
        omega

/-! ## Branches and expressions -/

theorem keeps_pieces (hP : Ascent A P W) {levels : Nat}
    (hi : ∀ n < levels, (expression n).Keeps (W n)) {atStart : Bool} {cur cur' : Cursor}
    {l : List Regex} (h : pieces (below levels) levels atStart cur = .ok (l, cur')) :
    ∀ e ∈ l, P levels e := by
  induction hn : cur.rest.length using Nat.strongRecOn generalizing cur atStart l with
  | _ n ih =>
    unfold pieces at h
    split at h
    · cases h
      intro e he
      exact absurd he List.not_mem_nil
    · split at h
      · simp at h
      · next hp =>
        simp only at h
        split at h
        · simp at h
        · next hl =>
          cases h
          intro e he
          rcases List.mem_cons.1 he with rfl | he
          · exact keeps_piece hP hi hp
          · exact ih _ (hn ▸ (piece_advances hp).2) hl rfl e he

theorem keeps_branch (hP : Ascent A P W) {levels : Nat}
    (hi : ∀ n < levels, (expression n).Keeps (W n)) {cur cur' : Cursor} {e : Regex}
    (h : branch (below levels) levels cur = .ok (e, cur')) : W levels e := by
  unfold branch at h
  split at h
  · simp at h
  · next hl =>
    cases h
    exact hP.seq (keeps_pieces hP hi hl)

/-- All branches have the property, and there is one. -/
theorem keeps_branches (hP : Ascent A P W) {levels : Nat}
    (hi : ∀ n < levels, (expression n).Keeps (W n)) {cur cur' : Cursor} {l : List Regex}
    (h : branches (below levels) levels cur = .ok (l, cur')) : l ≠ [] ∧ ∀ e ∈ l, W levels e := by
  induction hn : cur.rest.length using Nat.strongRecOn generalizing cur l with
  | _ n ih =>
    unfold branches at h
    split at h
    · simp at h
    · next hb =>
      simp only at h
      split at h
      · simp at h
      · next hl =>
        cases h
        -- The bar behind the branch makes the rest shorter.
        have hlt := (branch_suffix hb).length_le
        simp only [List.length_cons] at hlt
        obtain ⟨-, hall⟩ := ih _ (by simp only at *; omega) hl rfl
        refine ⟨List.cons_ne_nil _ _, ?_⟩
        intro x hx
        rcases List.mem_cons.1 hx with rfl | hx
        · exact keeps_branch hP hi hb
        · exact hall x hx
    · next hb =>
      cases h
      refine ⟨List.cons_ne_nil _ _, ?_⟩
      intro x hx
      rw [List.mem_singleton.1 hx]
      exact keeps_branch hP hi hb

/-- What the reader puts together holds level by level. -/
theorem Ascent.expression (hP : Ascent A P W) (levels : Nat) :
    (expression levels).Keeps (W levels) := by
  induction levels using Nat.strongRecOn with
  | _ levels ih =>
    intro cur e cur' h
    rw [expression_eq] at h
    change alternation (below levels) levels cur = _ at h
    unfold alternation at h
    split at h
    · simp at h
    · next hl =>
      cases h
      obtain ⟨hn, hall⟩ := keeps_branches hP ih hl
      exact hP.alt hn hall

theorem Ascent.parse (hP : Ascent A P W) {pattern : List Char} {e : Regex}
    (h : parse pattern = .ok e) : W maxDepth e := by
  unfold Emacs.parse at h
  split at h
  · simp at h
  · next hr =>
    cases h
    exact hP.expression maxDepth hr
  · simp at h

theorem keeps_parse {P : Regex → Prop} (hP : Product P) {pattern : List Char} {e : Regex}
    (h : parse pattern = .ok e) : P e :=
  (Ascent.of_product hP).parse h

/-! ## What both dialects put together -/

theorem boundsFit_of_readQuantifier? {text rest : List Char} {q : Quantifier}
    (h : readQuantifier? text = .ok (some (q, rest))) : BoundsFit q.least q.most := by
  unfold readQuantifier? at h
  split at h
  · split at h
    · simp at h
    · simp at h
    · next hb =>
      cases h
      exact Bounds.boundsFit_of_read? hb
  · split at h
    · next ho =>
      cases h
      exact boundsFit_of_operatorBounds? ho
    · simp at h
  · simp at h

/-- What holds of all that both dialects may put together holds of what this one does. -/
theorem Assembly.product {P : Regex → Prop} (hP : Assembly P) : Product P where
  literal := hP.leaves.literal
  primitive := hP.anyPrimitive
  syntaxClass := hP.syntaxClass
  category := hP.category
  backref := fun n h1 h9 => hP.backref n h1 (digit_le_maxNumber h9)
  brackets := fun h => hP.leaves.brackets spellsMembers_brackets h
  group := hP.group
  repeated := fun he hq hr => hP.repeated he (boundsFit_of_readQuantifier? hq) hr
  seq := hP.seq
  alt := hP.alt

end RegexDialects.Pattern.Emacs
