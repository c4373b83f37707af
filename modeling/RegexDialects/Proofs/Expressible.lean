import RegexDialects.Proofs.Invariant
import RegexDialects.Proofs.Marks
import RegexDialects.Proofs.ReadBack

/-!
# What was read as PCRE can be written as PCRE

The notation of PCRE has no words for all trees, but it nearly has for those that were read in it.
Two things fall out: a reference to a group with a number of two digits, which the reader takes and
the writer does not, and the three named classes that exist in Emacs only.

A writer fails on a node, so it is the nodes that count. Leaves come from what the reader puts
together (`inPcre_of_parse`); complements and intersections come from negated brackets, and their
parts are sets, classes and one excluded set (`readDemands`), each of which a bracket expression can
hold.
-/

set_option autoImplicit false

namespace RegexDialects

open Form.Pcre

/-- The reasons for which a tree that was read as PCRE cannot be written as PCRE. -/
inductive Unwritable.BeyondPcre : Unwritable → Prop
  /-- The number of the group has two digits. -/
  | backrefIndex {n : Nat} (h : 9 < n) : BeyondPcre (.backrefIndex n)
  /-- Only Emacs has the class. -/
  | posixClass {k : PosixClass} (h : k.inPcre = false) : BeyondPcre (.posixClass k)

theorem PosixClass.eq_of_inPcre_eq_false {k : PosixClass} (h : k.inPcre = false) :
    k = .multibyte ∨ k = .nonascii ∨ k = .unibyte := by
  cases k <;> simp [inPcre] at h ⊢

namespace Regex

/-! ## Leaves -/

/-- Whether PCRE has the leaf: a primitive with a spelling, and no class of the syntax tables or
    categories of Emacs. -/
def InPcre : Regex → Prop
  | .primitive p => p.pcre?.isSome = true
  | .syntaxClass _ | .category _ => False
  | _ => True

/-- The reader of PCRE puts together leaves that PCRE has. -/
theorem assembly_inPcre : Pattern.Assembly fun e => ∀ x ∈ e.marks, x.InPcre where
  text := by
    intro t x hx
    rw [marks_text] at hx
    exact absurd hx List.not_mem_nil
  primitive := by
    intro p hp x hx
    rw [marks_primitive, List.mem_singleton] at hx
    exact hx ▸ hp
  backref := by
    intro n _ _ x hx
    rw [marks_backref, List.mem_singleton] at hx
    exact hx ▸ trivial
  group := by
    intro e he x hx
    rcases List.mem_cons.1 hx with rfl | hx
    · trivial
    · exact he x hx
  repeated := by
    intro least most greedy e e' he _ h x hx
    rw [marks_repeated h] at hx
    split at hx
    · exact absurd hx List.not_mem_nil
    · exact he x hx
  seq := by
    intro l hl
    rw [marks_seq, List.forall_mem_flatMap]
    exact hl
  alt := by
    intro l _ hl
    rw [marks_alt, List.forall_mem_flatMap]
    exact hl
  member := by
    intro m _ x hx
    rw [m.marks_tree] at hx
    exact absurd hx List.not_mem_nil
  bracket := by
    intro negated ms e _ _ h x hx
    rw [Pattern.marks_bracketTree h] at hx
    exact absurd hx List.not_mem_nil

theorem inPcre_of_parse {pattern : String} {e : Regex} (h : Regex.parse .pcre pattern = .ok e) :
    ∀ x ∈ e.marks, x.InPcre :=
  Pattern.Pcre.keeps_parse assembly_inPcre h

/-! ## Brackets -/

theorem beyondPcre_of_classItem {sign : List Char} {k : PosixClass} {cause : Unwritable}
    (h : classItem sign k = .error cause) : cause.BeyondPcre := by
  unfold classItem at h
  split at h
  · cases h
  · next hk =>
    cases h
    exact .posixClass (Bool.eq_false_iff.2 hk)

theorem beyondPcre_of_classItems {l : List PosixClass} {cause : Unwritable}
    (h : classItems l = .error cause) : cause.BeyondPcre := by
  induction l with
  | nil => cases h
  | cons k l ih =>
    unfold classItems at h
    rcases bind_eq_error_iff.1 h with hk | ⟨t, -, h⟩
    · exact beyondPcre_of_classItem hk
    · rcases bind_eq_error_iff.1 h with hl | ⟨u, -, h⟩
      · exact ih hl
      · cases h

theorem beyondPcre_of_setItems {s : CharSet} {cause : Unwritable}
    (h : setItems s = .error cause) : cause.BeyondPcre := by
  unfold setItems at h
  rcases bind_eq_error_iff.1 h with hc | ⟨t, -, h⟩
  · exact beyondPcre_of_classItems hc
  · cases h

/-- Brackets can hold whatever has a form to stand there, but for the classes of Emacs. -/
theorem beyondPcre_of_bracketItem {negated : Bool} {e : Regex} {cause : Unwritable}
    (h : bracketItem negated e = some (.error cause)) : cause.BeyondPcre := by
  induction e using inductionOn generalizing negated with
  | complement e ih => exact ih h
  | set s =>
    unfold bracketItem at h
    split at h
    · split at h
      · cases h
      · split at h
        · cases h
        · exact beyondPcre_of_classItem (Option.some.inj h)
    · split at h
      · cases h
      · exact beyondPcre_of_setItems (Option.some.inj h)
  | primitive p => cases p <;> cases h
  | syntaxClass k =>
    rw [bracketItem] at h
    split at h <;> cases h
  | literal t =>
    cases t with
    | nil => cases h
    | cons c t =>
      cases t with
      | nil =>
        rw [bracketItem] at h
        split at h <;> cases h
      | cons d t => cases h
  | _ => cases h

theorem exists_mem_of_bracketItems_error {negated : Bool} {l : List Regex} {cause : Unwritable}
    (h : bracketItems negated l = some (.error cause)) :
    ∃ e ∈ l, bracketItem negated e = some (.error cause) := by
  induction l with
  | nil => cases h
  | cons e l ih =>
    unfold bracketItems at h
    split at h
    · cases h
    · next he =>
      cases h
      exact ⟨e, List.mem_cons_self, he⟩
    · obtain ⟨r, hr, h⟩ := Option.map_eq_some_iff.1 h
      rw [map_eq_error_iff.1 h] at hr
      obtain ⟨x, hx, hxe⟩ := ih hr
      exact ⟨x, List.mem_cons_of_mem _ hx, hxe⟩

theorem beyondPcre_of_bracketItems {negated : Bool} {l : List Regex} {cause : Unwritable}
    (h : bracketItems negated l = some (.error cause)) : cause.BeyondPcre := by
  obtain ⟨e, -, he⟩ := exists_mem_of_bracketItems_error h
  exact beyondPcre_of_bracketItem he

/-- What an intersection of a negated bracket holds has a form to stand in one. -/
theorem bracketItem_ne_none_of_part {e : Regex} (he : e.Fit readDemands)
    (hp : readDemands.part e) : bracketItem true e ≠ none := by
  rcases hp with ⟨k, rfl⟩ | ⟨s, rfl⟩
  · have hk : (CharSet.of (.posix k)).singleClass? = some k :=
      CharSet.singleClass?_eq_some_iff.2 rfl
    simp only [bracketItem, if_true, hk]
    split <;> exact Option.some_ne_none _
  · have hs : s ≠ .empty := (fit_set.1 (fit_complement.1 he).2).2.1
    have hempty : ¬ s.isEmpty = true := fun h => hs (CharSet.isEmpty_eq_true_iff.1 h)
    simp only [bracketItem, Bool.not_true, Bool.false_eq_true, if_false, if_neg hempty]
    exact Option.some_ne_none _

/-! ## Sets and complements -/

theorem beyondPcre_of_renderSet {s : CharSet} {cause : Unwritable}
    (h : renderSet s = .error cause) : cause.BeyondPcre := by
  unfold renderSet at h
  split at h
  · cases h
  · split at h
    · cases h
    · split at h
      · cases h
      · exact beyondPcre_of_setItems (map_eq_error_iff.1 h)

theorem beyondPcre_of_renderComplement {s : CharSet} {cause : Unwritable}
    (h : renderComplement (.set s) = .error cause) : cause.BeyondPcre := by
  rw [renderComplement] at h
  split at h
  · cases h
  · split at h
    · cases h
    · exact beyondPcre_of_setItems (map_eq_error_iff.1 h)

/-! ## Trees -/

theorem exists_mem_of_renderAll_error {l : List Regex} {cause : Unwritable}
    (h : renderAll l = .error cause) : ∃ e ∈ l, Form.Pcre.render e = .error cause := by
  induction l with
  | nil => cases h
  | cons e l ih =>
    unfold renderAll at h
    rcases bind_eq_error_iff.1 h with he | ⟨r, -, h⟩
    · exact ⟨e, List.mem_cons_self, he⟩
    · rcases bind_eq_error_iff.1 h with hl | ⟨rs, -, h⟩
      · obtain ⟨x, hx, hxe⟩ := ih hl
        exact ⟨x, List.mem_cons_of_mem _ hx, hxe⟩
      · cases h

/-- A tree with leaves that PCRE has, and with sets as a reader leaves them, fails to be written
    for one of the stated reasons only. -/
theorem beyondPcre_of_render {e : Regex} (he : e.Fit readDemands)
    (hm : ∀ x ∈ e.marks, x.InPcre) {cause : Unwritable}
    (h : Form.Pcre.render e = .error cause) : cause.BeyondPcre := by
  induction e using inductionOn with
  | empty => cases h
  | literal t => cases h
  | primitive p =>
    have hp : p.pcre?.isSome = true := hm _ List.mem_cons_self
    unfold Form.Pcre.render at h
    split at h
    · cases h
    · next hn =>
      rw [hn] at hp
      cases hp
  | sequence l ih =>
    rw [marks_sequence, List.forall_mem_flatMap] at hm
    rcases bind_eq_error_iff.1 h with hl | ⟨rs, -, h⟩
    · obtain ⟨x, hx, hxe⟩ := exists_mem_of_renderAll_error hl
      exact ih x hx ((fit_sequence.1 he).2 x hx) (hm x hx) hxe
    · cases h
  | choice l ih =>
    rw [marks_choice, List.forall_mem_flatMap] at hm
    unfold Form.Pcre.render at h
    split at h
    · next hb => exact beyondPcre_of_bracketItems (map_eq_error_iff.1 h ▸ hb)
    · rcases bind_eq_error_iff.1 h with hl | ⟨rs, -, h⟩
      · obtain ⟨x, hx, hxe⟩ := exists_mem_of_renderAll_error hl
        exact ih x hx ((fit_choice.1 he).2 x hx) (hm x hx) hxe
      · cases h
  | repetition n m g e ih =>
    rcases bind_eq_error_iff.1 h with he' | ⟨r, -, h⟩
    · exact ih (fit_repetition.1 he).2 hm he'
    · cases h
  | group e ih =>
    rcases bind_eq_error_iff.1 h with he' | ⟨r, -, h⟩
    · exact ih (fit_group.1 he) (fun x hx => hm x (List.mem_cons_of_mem _ hx)) he'
    · cases h
  | backref n =>
    unfold Form.Pcre.render at h
    split at h
    · next hn =>
      cases h
      exact .backrefIndex hn
    · cases h
  | syntaxClass k => exact (hm _ List.mem_cons_self).elim
  | category k => exact (hm _ List.mem_cons_self).elim
  | set s => exact beyondPcre_of_renderSet h
  | complement e _ =>
    -- Under a complement stands a set or a class of Emacs, and the latter are no leaves here.
    rcases isNegatable_iff.1 (fit_complement.1 he).1 with ⟨s, rfl⟩ | ⟨k, rfl⟩ | ⟨k, rfl⟩
    · exact beyondPcre_of_renderComplement h
    · exact (hm _ List.mem_cons_self).elim
    · exact (hm _ List.mem_cons_self).elim
  | intersection l _ =>
    obtain ⟨⟨-, hp⟩, hl⟩ := fit_intersection.1 he
    unfold Form.Pcre.render at h
    split at h
    · next hb => exact beyondPcre_of_bracketItems (map_eq_error_iff.1 h ▸ hb)
    · next hb =>
      obtain ⟨x, hx, hxn⟩ := exists_bracketItem_eq_none hb
      exact absurd hxn (bracketItem_ne_none_of_part (hl x hx) (hp x hx))

/-- **Every tree that was read as PCRE can be written as PCRE**, unless it refers to a group with a
    number above nine or holds a class that only Emacs has. -/
theorem render_of_parse {pattern : String} {e : Regex}
    (h : Regex.parse .pcre pattern = .ok e) :
    (∃ text, e.render .pcre = .ok text) ∨
      (∃ n, 9 < n ∧ e.render .pcre = .error ⟨.pcre, .backrefIndex n⟩) ∨
      ∃ k, (k = .multibyte ∨ k = .nonascii ∨ k = .unibyte) ∧
        e.render .pcre = .error ⟨.pcre, .posixClass k⟩ := by
  unfold Regex.render
  split
  · next text _ => exact Or.inl ⟨String.ofList text, rfl⟩
  · next cause hc =>
    have hb : cause.BeyondPcre :=
      beyondPcre_of_render (fit_of_parse h) (inPcre_of_parse h) (map_eq_error_iff.1 hc)
    cases hb with
    | backrefIndex hn => exact Or.inr (Or.inl ⟨_, hn, rfl⟩)
    | posixClass hk => exact Or.inr (Or.inr ⟨_, PosixClass.eq_of_inPcre_eq_false hk, rfl⟩)

/-- A negated class and a character in negated brackets make an intersection. -/
theorem render_of_parse_negated_class :
    Regex.parse .pcre "[^\\Da]\\10" = .ok (.sequence [.intersection [.set (.of (.posix .digit)),
        .complement (.set (.of (.char 'a')))], .backref 1, .literal ['0']]) ∧
      ∃ text, Regex.render .pcre (.sequence [.intersection [.set (.of (.posix .digit)),
        .complement (.set (.of (.char 'a')))], .backref 1, .literal ['0']]) = .ok text := by
  have hparse : Regex.parse .pcre "[^\\Da]\\10" =
      .ok (.sequence [.intersection [.set (.of (.posix .digit)),
        .complement (.set (.of (.char 'a')))], .backref 1, .literal ['0']]) :=
    parse_eq_of_toOption (by decide +kernel)
  refine ⟨hparse, ?_⟩
  rcases render_of_parse hparse with htext | ⟨n, hn, herror⟩ | ⟨k, hk, herror⟩
  · exact htext
  · cases herror
  · cases herror

end Regex

end RegexDialects
