import RegexDialects.Pattern.Pcre.Expression
import RegexDialects.Proofs.Assembly

/-!
# What the reader of PCRE puts together

The same way down as in `Pattern/Pcre/Expression.lean`: from escapes and atoms to steps, branches
and expressions. What holds may depend on how many levels of nesting are left, and on whether a tree
is an atom, a piece of a branch or a whole expression (`Ascent`). The invariant of a branch is that
all of its pieces so far are pieces, and that the latest can still take a quantifier (`Pieces`);
that of a level is that the levels below have it (`Inside.Keeps`).

A property that depends on none of this is an `Assembly`.
-/

set_option autoImplicit false

namespace RegexDialects.Pattern.Pcre

open Regex

/-- The reader for groups of an expression that `levels` groups may be nested in. -/
def below : Nat → Option Inside
  | 0 => none
  | levels + 1 => some (expression levels)

theorem expression_eq (levels : Nat) : expression levels = inside (below levels) levels := by
  cases levels <;> rfl

/-- Properties that hold of what a reader puts together with so many levels of nesting left: `A` of
    an atom, with its quantifiers or without, `P` of a piece of a branch, `W` of what stands in a
    group. -/
structure Ascent (A P W : Nat → Regex → Prop) : Prop where
  leaves : ∀ levels, Leaves (A levels)
  comment : ∀ levels, A (levels + 1) .empty
  shy : ∀ {levels e}, W levels e → A (levels + 1) e
  group : ∀ {levels e}, W levels e → A (levels + 1) (.group e)
  repeated : ∀ {levels least most greedy e e'}, A levels e → e.repeatDepth < levels →
    BoundsFit least most → repeated least most greedy e = .ok e' → A levels e'
  piece : ∀ {levels e}, A levels e → P levels e
  text : ∀ levels t, P levels (.text t)
  seq : ∀ {levels l}, (∀ e ∈ l, P levels e) → W levels (.seq l)
  alt : ∀ {levels l}, l ≠ [] → (∀ e ∈ l, W levels e) → W levels (.alt l)

/-- A property of all that is put together takes no notice of levels. -/
theorem Ascent.of_assembly {P : Regex → Prop} (hP : Assembly P) :
    Ascent (fun _ => P) (fun _ => P) (fun _ => P) where
  leaves := fun _ => hP.leaves
  comment := fun _ => hP.text []
  shy := fun h => h
  group := hP.group _
  repeated := fun he _ => hP.repeated he
  piece := fun h => h
  text := fun _ => hP.text
  seq := hP.seq _
  alt := hP.alt _

/-! ## Escapes and brackets -/

/-- The classes that have an escape are members of bracket expressions too. -/
theorem exists_member_of_shorthandClass? {c : Char} {e : Regex} (h : shorthandClass? c = some e) :
    ∃ m : Member, m.IsSpelled ∧ m.tree = e := by
  unfold shorthandClass? at h
  split at h
  · cases h
    exact ⟨.item (.posix .digit), trivial, rfl⟩
  · cases h
    exact ⟨.item (.posix .space), trivial, rfl⟩
  · cases h
    exact ⟨.item (.posix .blank), trivial, rfl⟩
  · cases h
    exact ⟨.except .digit, trivial, rfl⟩
  · cases h
    exact ⟨.except .space, trivial, rfl⟩
  · cases h
    exact ⟨.except .blank, trivial, rfl⟩
  · simp at h

theorem exists_member_of_bracketClass? {c : Char} {e : Regex} (h : bracketClass? c = some e) :
    ∃ m : Member, m.IsSpelled ∧ m.tree = e := by
  unfold bracketClass? at h
  split at h
  · cases h
    exact ⟨.item (.posix .word), trivial, rfl⟩
  · cases h
    exact ⟨.except .word, trivial, rfl⟩
  · exact exists_member_of_shorthandClass? h

/-- Of the escapes in brackets only those for classes are no characters. -/
theorem spellsMembers_brackets : brackets.SpellsMembers := by
  intro whole text rest e h
  change bracketAtom whole text = _ at h
  unfold bracketAtom at h
  split at h
  · simp at h
  · unfold bracketEscape at h
    split at h
    · simp at h
    · split at h
      · next hc =>
        cases h
        exact exists_member_of_bracketClass? hc
      · split at h
        · simp at h
        · split at h
          · simp at h
          · split at h
            · simp at h
            · split at h <;> simp at h
  · simp at h

theorem toNat_sub_of_isDigit {c : Char} (hd : c.isDigit = true) (h0 : c ≠ '0') :
    1 ≤ c.toNat - '0'.toNat ∧ c.toNat - '0'.toNat ≤ 9 := by
  have hd := Char.isDigit_iff_toNat.1 hd
  have h : c.toNat ≠ '0'.toNat := by
    intro h
    exact h0 (Char.toNat_inj.1 h)
  have h48 : '0'.toNat = 48 := rfl
  have h57 : '9'.toNat = 57 := rfl
  omega

section Escapes

variable {P : Regex → Prop}

/-- An atom that is a piece has the property. -/
def Atom.Keeps (P : Regex → Prop) : Atom → Prop
  | .piece e => P e
  | _ => True

/-- An escape with digits is a reference to a number that fits, or a character. -/
theorem keeps_digitEscape (hP : Leaves P) {groups : Nat} {c : Char} {rest : List Char}
    (hd : c.isDigit = true) : P (digitEscape groups c rest).1 := by
  unfold digitEscape
  simp only
  split
  · next h => exact hP.backref _ h.1 h.2.1
  · split
    · exact hP.literal _
    · next h0 =>
      obtain ⟨h1, h9⟩ := toNat_sub_of_isDigit hd h0
      exact hP.backref _ h1 (digit_le_maxNumber h9)

theorem isSome_pcre?_of_escapedPrimitive? {c : Char} {p : Primitive}
    (h : escapedPrimitive? c = some p) : p.pcre?.isSome = true := by
  unfold escapedPrimitive? at h
  split at h <;> cases h <;> rfl

theorem keeps_escape (hP : Leaves P) {groups : Nat} {text rest : List Char} {a : Atom}
    (h : escape groups text = .ok (a, rest)) : a.Keeps P := by
  simp only [escape] at h
  split at h
  · simp at h
  · split at h
    · next hd =>
      cases h
      exact keeps_digitEscape hP hd
    · split at h
      · next hp =>
        cases h
        exact hP.primitive _ (isSome_pcre?_of_escapedPrimitive? hp)
      · split at h
        · cases h
          trivial
        · split at h
          · cases h
            trivial
          · split at h
            · next hc =>
              cases h
              obtain ⟨m, hm, rfl⟩ := exists_member_of_shorthandClass? hc
              exact hP.member m hm
            · split at h
              · simp at h
              · cases h
                exact hP.literal _

end Escapes

/-! ## Atoms -/

/-- A reader whose trees have the property. -/
def Inside.Keeps (P : Regex → Prop) (inside : Inside) : Prop :=
  ∀ {f cur e cur'}, inside.read f cur = .ok (e, cur') → P e

theorem keeps_groupBody {P : Regex → Prop} {inside : Inside} (hi : inside.Keeps P)
    {whole : List Char} {flags : Flags} {cur cur' : Cursor} {e : Regex}
    (h : groupBody inside whole flags cur = .ok (e, cur')) : P e := by
  unfold groupBody at h
  split at h
  · simp at h
  · next hb =>
    cases h
    exact hi hb
  · simp at h

variable {A P W : Nat → Regex → Prop}

/-- What stands in a group has the property of the level below. -/
theorem keeps_group (hP : Ascent A P W) {levels : Nat}
    (hi : ∀ n < levels, (expression n).Keeps (W n)) {flags : Flags} {cur cur' : Cursor} {a : Atom}
    (h : group (below levels) flags cur = .ok (a, cur')) : a.Keeps (A levels) := by
  cases levels with
  | zero => simp [group, below] at h
  | succ levels =>
    have hi : (expression levels).Keeps (W levels) := hi levels (Nat.lt_succ_self levels)
    simp only [group, below] at h
    split at h
    · simp at h
    -- Apart from a refusal: a comment, flags, a group that captures nothing, and one that does.
    · cases h
      exact hP.comment levels
    · cases h
      trivial
    · split at h
      · simp at h
      · next hb =>
        cases h
        exact hP.shy (keeps_groupBody hi hb)
    · split at h
      · simp at h
      · next hb =>
        cases h
        exact hP.group (keeps_groupBody hi hb)

theorem keeps_atom (hP : Ascent A P W) {levels : Nat}
    (hi : ∀ n < levels, (expression n).Keeps (W n)) {flags : Flags} {cur cur' : Cursor} {a : Atom}
    (h : atom (below levels) flags cur = .ok (a, cur')) : a.Keeps (A levels) := by
  have hleaves := hP.leaves levels
  unfold atom at h
  split at h
  · simp at h
  · split at h
    · exact keeps_group hP hi h
    · split at h
      · split at h
        · simp at h
        · next hb =>
          cases h
          exact hleaves.brackets spellsMembers_brackets hb
      · split at h
        · split at h
          · simp at h
          · next he =>
            cases h
            exact keeps_escape hleaves he
        · split at h
          · cases h
            exact hleaves.primitive _ (by cases flags.singleLine <;> rfl)
          · split at h
            · cases h
              exact hleaves.primitive _ rfl
            · split at h
              · cases h
                exact hleaves.primitive _ rfl
              · split at h
                · simp at h
                · cases h
                  exact hleaves.literal _

/-! ## Branches and expressions -/

theorem boundsFit_of_marked {start text rest : List Char} {least : Nat} {most : Option Nat}
    {q : Quantifier} (hb : BoundsFit least most)
    (h : marked start least most text = .ok (some (q, rest))) : BoundsFit q.least q.most := by
  unfold marked at h
  split at h
  · simp at h
  · cases h
    exact hb

/-- The bounds of a quantifier have 32 bits, for braces that do not fit are refused. -/
theorem boundsFit_of_readQuantifier? {text rest : List Char} {q : Quantifier}
    (h : readQuantifier? text = .ok (some (q, rest))) : BoundsFit q.least q.most := by
  unfold readQuantifier? at h
  split at h
  · split at h
    · simp at h
    · simp at h
    · next hb =>
      split at h
      · simp at h
      · exact boundsFit_of_marked (Bounds.boundsFit_of_read? hb) h
  · split at h
    · next ho => exact boundsFit_of_marked (boundsFit_of_operatorBounds? ho) h
    · simp at h
  · simp at h

/-- What holds of the pieces of a branch so far, the latest first. -/
def Pieces (A P : Regex → Prop) (l : List Regex) : Prop :=
  (∀ e ∈ l.head?, A e) ∧ ∀ e ∈ l, P e

theorem pieces_nil {A P : Regex → Prop} : Pieces A P [] :=
  ⟨nofun, nofun⟩

/-- Of the pieces so far only the latest is asked to take a quantifier. -/
theorem Ascent.pieces_cons (hP : Ascent A P W) {levels : Nat} {e : Regex} {l : List Regex}
    (he : A levels e) (hl : ∀ x ∈ l, P levels x) : Pieces (A levels) (P levels) (e :: l) := by
  refine ⟨?_, ?_⟩
  · rintro _ ⟨⟩
    exact he
  · intro x hx
    rcases List.mem_cons.1 hx with rfl | hx
    · exact hP.piece he
    · exact hl x hx

theorem keeps_addPiece (hP : Ascent A P W) {levels : Nat} {flags : Flags} {pieces : List Regex}
    {e : Regex} {cur cur' : Cursor} {p : Progress} (hp : ∀ x ∈ pieces, P levels x)
    (he : A levels e) (h : addPiece levels flags pieces e cur = .ok (p, cur')) :
    Pieces (A levels) (P levels) p.pieces := by
  unfold addPiece at h
  split at h
  · simp at h
  · next hq =>
    cases h
    refine hP.pieces_cons (keeps_quantified_within levels ?_ he ?_ hq) hp
    · intro _ _ _ _ _ he hlt hq hr
      exact hP.repeated he hlt (boundsFit_of_readQuantifier? hq) hr
    · intro hb
      omega

theorem keeps_addAtom (hP : Ascent A P W) {levels : Nat} {done p : Progress} {a : Atom}
    {cur cur' : Cursor} (hp : Pieces (A levels) (P levels) done.pieces) (ha : a.Keeps (A levels))
    (h : addAtom levels done a cur = .ok (p, cur')) : Pieces (A levels) (P levels) p.pieces := by
  unfold addAtom at h
  split at h
  · cases h
    exact hp
  · exact keeps_addPiece hP hp.2 ha h
  · -- Of a quoted text only the last character can be repeated.
    split at h
    · cases h
      exact hp
    · refine keeps_addPiece hP ?_ ((hP.leaves levels).literal _) h
      intro x hx
      rcases List.mem_cons.1 hx with rfl | hx
      · exact hP.text levels _
      · exact hp.2 x hx
  · -- Nothing was read, so what comes next belongs to the piece in front of it.
    split at h
    · cases h
      exact hp
    · next hd =>
      rw [hd] at hp
      refine keeps_addPiece hP ?_ (hp.1 _ rfl) h
      intro x hx
      exact hp.2 x (List.mem_cons_of_mem _ hx)

/-- One step of a branch keeps what holds of the pieces so far. -/
theorem keeps_step (hP : Ascent A P W) {levels : Nat}
    (hi : ∀ n < levels, (expression n).Keeps (W n)) {done p : Progress} {cur cur' : Cursor}
    (hp : Pieces (A levels) (P levels) done.pieces)
    (h : step (below levels) levels done cur = .ok (p, cur')) :
    Pieces (A levels) (P levels) p.pieces := by
  unfold step at h
  split at h
  · simp at h
  · next ha => exact keeps_addAtom hP hp (keeps_atom hP hi ha) h

theorem keeps_steps (hP : Ascent A P W) {levels : Nat}
    (hi : ∀ n < levels, (expression n).Keeps (W n)) {done p : Progress} {cur cur' : Cursor}
    (hp : Pieces (A levels) (P levels) done.pieces)
    (h : steps (below levels) levels done cur = .ok (p, cur')) :
    Pieces (A levels) (P levels) p.pieces := by
  induction hn : cur.rest.length using Nat.strongRecOn generalizing cur done with
  | _ n ih =>
    unfold steps at h
    split at h
    · cases h
      exact hp
    · split at h
      · simp at h
      · next hs =>
        -- The invariant is that of the pieces so far; a step makes the rest shorter.
        have a := (step_advances hs).suffix_of (skip_suffix _ _)
        exact ih _ (hn ▸ a.2) (keeps_step hP hi hp hs) h rfl

theorem keeps_branch (hP : Ascent A P W) {levels : Nat}
    (hi : ∀ n < levels, (expression n).Keeps (W n)) {flags : Flags} {cur cur' : Cursor}
    {r : Regex × Flags} (h : branch (below levels) levels flags cur = .ok (r, cur')) :
    W levels r.1 := by
  unfold branch at h
  split at h
  · simp at h
  · next hs =>
    cases h
    apply hP.seq
    intro e he
    exact (keeps_steps hP hi pieces_nil hs).2 e (List.mem_reverse.1 he)

/-- All branches have the property, and there is one. -/
theorem keeps_branches (hP : Ascent A P W) {levels : Nat}
    (hi : ∀ n < levels, (expression n).Keeps (W n)) {flags : Flags} {cur cur' : Cursor}
    {l : List Regex} (h : branches (below levels) levels flags cur = .ok (l, cur')) :
    l ≠ [] ∧ ∀ e ∈ l, W levels e := by
  induction hn : cur.rest.length using Nat.strongRecOn generalizing cur flags l with
  | _ n ih =>
    unfold branches at h
    split at h
    · simp at h
    · next hb =>
      simp only at h
      split at h
      · simp at h
      · next hl =>
        cases h
        -- The bar behind the branch makes the rest shorter.
        have hlt := (branch_suffix hb).length_le
        simp only [List.length_cons] at hlt
        obtain ⟨-, hall⟩ := ih _ (by simp only at *; omega) hl rfl
        refine ⟨List.cons_ne_nil _ _, ?_⟩
        intro x hx
        rcases List.mem_cons.1 hx with rfl | hx
        · exact keeps_branch hP hi hb
        · exact hall x hx
    · next hb =>
      cases h
      refine ⟨List.cons_ne_nil _ _, ?_⟩
      intro x hx
      rw [List.mem_singleton.1 hx]
      exact keeps_branch hP hi hb

/-- What a reader puts together holds level by level. -/
theorem Ascent.expression (hP : Ascent A P W) (levels : Nat) :
    (expression levels).Keeps (W levels) := by
  induction levels using Nat.strongRecOn with
  | _ levels ih =>
    intro f cur e cur' h
    rw [expression_eq] at h
    change alternation (below levels) levels f cur = _ at h
    unfold alternation at h
    split at h
    · simp at h
    · next hl =>
      cases h
      obtain ⟨hn, hall⟩ := keeps_branches hP ih hl
      exact hP.alt hn hall

/-- A whole pattern has all levels left. -/
theorem Ascent.parse (hP : Ascent A P W) {pattern : List Char} {e : Regex}
    (h : parse pattern = .ok e) : W maxDepth e := by
  unfold Pcre.parse at h
  split at h
  · simp at h
  · next hr =>
    cases h
    exact hP.expression maxDepth hr
  · simp at h

/-- **What holds of all that is put together holds of every tree that is read.** -/
theorem keeps_parse {P : Regex → Prop} (hP : Assembly P) {pattern : List Char} {e : Regex}
    (h : parse pattern = .ok e) : P e :=
  (Ascent.of_assembly hP).parse h

end RegexDialects.Pattern.Pcre
