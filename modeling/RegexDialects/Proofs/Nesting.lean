import Mathlib.Order.MinMax
import RegexDialects.Proofs.Alternatives
import RegexDialects.Proofs.ReadBackShape
import RegexDialects.Proofs.Writable

/-!
# How deep a written tree nests

A reader of PCRE has a limited number of levels. A group takes one, and a quantifier takes as many
as there are repetitions inside one another in what it repeats, and one more. This module counts the
levels that the text of a tree takes (`nesting`), without looking at the text.

The text has groups for three reasons: the tree has a group; a text binds too loosely for its place
(`wraps`); or the writer needs one of its own: for `.` with a flag, around a back reference before a
digit, and around a repetition that is repeated. What those of the last sort count is a parameter:
with `own = 1` the text is measured as it is, with `own = 0` as if they were not there. Where a tree
gives no reason for them (`bringsGroup`), the two agree (`nesting_eq`).
-/

set_option autoImplicit false

namespace RegexDialects.Regex

open Form.Pcre Pattern

/-! ## Definitions -/

/-- How the text of a tree binds, where what binds tighter than a piece counts as a piece. -/
def binding : Regex → Level
  | .empty | .sequence _ => .branch
  | .literal t => if t.length = 1 then .piece else .branch
  | .choice l => if isBracketed l then .piece else .top
  | _ => .piece

/-- How many groups the text of a tree needs where levels up to `limit` can stand as they are. -/
def wraps (limit : Level) (e : Regex) : Nat :=
  if limit.rank < e.binding.rank then 1 else 0

/-- Whether the text of a tree begins with a digit. -/
def startsDigit (e : Regex) : Bool :=
  match Form.Pcre.render e with
  | .ok r => startsWithDigit (r.atMost .branch)
  | .error _ => false

/-- Whether a part is a back reference and a digit comes first in the parts behind it. -/
def isGuarded (e : Regex) (l : List Regex) : Bool :=
  isBackref e && l.head?.any startsDigit

mutual

/-- How many levels the text of a tree takes, if a group of the writer's own counts `own`. -/
def nesting (own : Nat) : Regex → Nat
  | .primitive p => if p = .anything then own else 0
  | .sequence l => nestingAll own own l
  | .choice l => nestingAll own 0 l
  | .repetition _ _ _ e =>
    max (nesting own e + if isRepetition e then own else e.wraps .piece) (e.repeatDepth + 1)
  | .group e => nesting own e + 1
  | _ => 0

/-- The levels that parts or branches take, if a group around a back reference counts `guard`. -/
def nestingAll (own guard : Nat) : List Regex → Nat
  | [] => 0
  | e :: l =>
    max (nesting own e + e.wraps .branch + if isGuarded e l then guard else 0)
      (nestingAll own guard l)

end

/-- Whether some part is a back reference with a digit behind it. -/
def anyGuarded : List Regex → Bool
  | [] => false
  | e :: l => isGuarded e l || anyGuarded l

/-- Whether a node gives the writer a reason to add a group that is not one of binding. -/
def bringsGroup : Regex → Bool
  | .primitive p => p == .anything
  | .sequence l => anyGuarded l
  | .repetition _ _ _ e => isRepetition e
  | _ => false

theorem nestingAll_singleton (own guard : Nat) (e : Regex) :
    nestingAll own guard [e] = nesting own e + e.wraps .branch := by
  have hguard : isGuarded e [] = false := Bool.and_false _
  rw [nestingAll, nestingAll, hguard]
  exact Nat.max_zero _

/-- Between two parts, what the writer looks at is the text of the second. -/
theorem nestingAll_cons_cons {own guard : Nat} {e e' : Regex} {l : List Regex} {r' : Rendered}
    (h : Form.Pcre.render e' = .ok r') :
    nestingAll own guard (e :: e' :: l) =
      max (nesting own e + e.wraps .branch +
        if isBackref e && startsWithDigit (r'.atMost .branch) then guard else 0)
          (nestingAll own guard (e' :: l)) := by
  have hguard : isGuarded e (e' :: l) = (isBackref e && startsWithDigit (r'.atMost .branch)) := by
    show (isBackref e && startsDigit e') = _
    rw [startsDigit, h]
  rw [nestingAll, hguard]

/-! ## Binding -/

/-- Texts bind as the trees say. -/
theorem rank_binding {e : Regex} {r : Rendered} (h : Form.Pcre.render e = .ok r) :
    e.binding.rank = max Level.piece.rank r.level.rank := by
  cases e with
  | empty =>
    cases h
    rfl
  | literal t =>
    cases h
    simp only [binding]
    split <;> rfl
  | primitive p =>
    rw [Form.Pcre.render] at h
    split at h <;> cases h
    simp only [binding]
    split <;> rfl
  | sequence l =>
    obtain ⟨_, -, h⟩ := bind_eq_ok_iff.1 h
    cases h
    rfl
  | choice l =>
    rw [Form.Pcre.render] at h
    split at h
    · next hitems =>
      have hb : isBracketed l = true := Option.isSome_of_eq_some hitems
      obtain ⟨_, -, rfl⟩ := map_eq_ok_iff.1 h
      rw [binding, if_pos hb]
      rfl
    · next hitems =>
      have hb : ¬ isBracketed l = true := Option.not_isSome_iff_eq_none.2 hitems
      obtain ⟨_, -, h⟩ := bind_eq_ok_iff.1 h
      cases h
      rw [binding, if_neg hb]
      rfl
  | repetition n m g e =>
    obtain ⟨_, -, h⟩ := bind_eq_ok_iff.1 h
    cases h
    rfl
  | group e =>
    obtain ⟨_, -, h⟩ := bind_eq_ok_iff.1 h
    cases h
    rfl
  | backref n =>
    rw [Form.Pcre.render] at h
    split at h <;> cases h
    rfl
  | syntaxClass k =>
    obtain ⟨_, -, rfl⟩ := map_eq_ok_iff.1 h
    rfl
  | category k => cases h
  | set s =>
    have h : renderSet s = .ok r := h
    unfold renderSet at h
    split at h
    · cases h
      rfl
    · split at h
      · cases h
        rfl
      · split at h
        · cases h
          rfl
        · obtain ⟨_, -, rfl⟩ := map_eq_ok_iff.1 h
          rfl
  | complement e =>
    have h : renderComplement e = .ok r := h
    unfold renderComplement at h
    split at h
    · split at h
      · cases h
        rfl
      · split at h
        · cases h
          rfl
        · obtain ⟨_, -, rfl⟩ := map_eq_ok_iff.1 h
          rfl
    · obtain ⟨_, -, rfl⟩ := map_eq_ok_iff.1 h
      rfl
    · cases h
    · cases h
  | intersection l =>
    rw [Form.Pcre.render] at h
    split at h
    · obtain ⟨_, -, rfl⟩ := map_eq_ok_iff.1 h
      rfl
    · cases h

/-- A text stands in a group where it binds too loosely. -/
theorem wraps_of_render {e : Regex} {r : Rendered} (h : Form.Pcre.render e = .ok r) {limit : Level}
    (hl : Level.piece.rank ≤ limit.rank) :
    e.wraps limit = if limit.rank < r.level.rank then 1 else 0 := by
  have hiff : limit.rank < e.binding.rank ↔ limit.rank < r.level.rank := by
    rw [rank_binding h]
    omega
  simp only [wraps, hiff]

theorem wraps_le_one (limit : Level) (e : Regex) : e.wraps limit ≤ 1 := by
  unfold wraps
  split
  · exact Nat.le_refl 1
  · exact Nat.zero_le 1

theorem wraps_branch_le_wraps_piece (e : Regex) : e.wraps .branch ≤ e.wraps .piece := by
  unfold wraps
  cases e.binding <;> decide

/-- Only a choice needs a group inside a concatenation. -/
theorem wraps_branch_of_isChoice_eq_false {e : Regex} (h : e.isChoice = false) :
    e.wraps .branch = 0 := by
  cases e with
  | literal t =>
    simp only [wraps, binding]
    split <;> rfl
  | choice l => cases h
  | _ => rfl

/-! ## What has a place in brackets -/

/-- What has a place in a bracket expression nests nothing. -/
theorem flat_of_isSome_bracketItem {negated : Bool} {e : Regex}
    (h : (bracketItem negated e).isSome = true) :
    (∀ own, nesting own e = 0) ∧ e.repeatDepth = 0 ∧ e.binding = .piece := by
  induction e using inductionOn generalizing negated with
  | literal t =>
    match t with
    | [_] => exact ⟨fun _ => rfl, rfl, rfl⟩
    | [] => cases h
    | _ :: _ :: _ => cases h
  | primitive p => cases p <;> first | exact ⟨fun _ => rfl, rfl, rfl⟩ | cases h
  | set s => exact ⟨fun _ => rfl, rfl, rfl⟩
  | syntaxClass k => exact ⟨fun _ => rfl, rfl, rfl⟩
  | complement e ih =>
    have h : (bracketItem (!negated) e).isSome = true := h
    exact ⟨fun _ => rfl, (ih h).2.1, rfl⟩
  | _ => cases h

theorem nestingAll_of_bracketed {own : Nat} {l : List Regex}
    (h : ∀ e ∈ l, (bracketItem false e).isSome = true) : nestingAll own 0 l = 0 := by
  induction l with
  | nil => rfl
  | cons e l ih =>
    obtain ⟨hnesting, -, hbinding⟩ := flat_of_isSome_bracketItem (h e List.mem_cons_self)
    have hwraps : e.wraps .branch = 0 := by
      unfold wraps
      rw [hbinding]
      rfl
    rw [nestingAll, hnesting, hwraps, ih fun x hx => h x (List.mem_cons_of_mem _ hx), ite_self]
    rfl

/-- A bracket expression nests nothing. -/
theorem nesting_choice_of_bracketItems {own : Nat} {l : List Regex} {text : List Char}
    (h : bracketItems false l = some (.ok text)) : nesting own (.choice l) = 0 := by
  apply nestingAll_of_bracketed
  intro e he
  obtain ⟨t, ht⟩ := bracketItem_of_bracketItems h he
  exact Option.isSome_of_eq_some ht

/-! ## Chains of repetitions -/

theorem lt_repeatDepthAll {n : Nat} {l : List Regex} :
    n < repeatDepthAll l ↔ ∃ e ∈ l, n < e.repeatDepth := by
  induction l with
  | nil => simp [repeatDepthAll]
  | cons e l ih => rw [repeatDepthAll, lt_max_iff, ih, List.exists_mem_cons_iff]

theorem repeatDepthAll_eq_zero_iff {l : List Regex} :
    repeatDepthAll l = 0 ↔ ∀ e ∈ l, e.repeatDepth = 0 := by
  induction l with
  | nil => simp [repeatDepthAll]
  | cons e l ih => simp [repeatDepthAll, ih]

theorem repeatDepthAll_append (l m : List Regex) :
    repeatDepthAll (l ++ m) = max (repeatDepthAll l) (repeatDepthAll m) := by
  induction l with
  | nil => simp [repeatDepthAll]
  | cons e l ih => rw [List.cons_append, repeatDepthAll, ih, repeatDepthAll, Nat.max_assoc]

theorem repeatDepthAll_joinText (l : List Regex) :
    repeatDepthAll (joinText l) = repeatDepthAll l := by
  induction l with
  | nil => rfl
  | cons e l ih =>
    rw [joinText_cons, repeatDepthAll, ← ih]
    rcases glue_cases e (joinText l) with ⟨t, u, m, rfl, hm, h⟩ | ⟨h, -⟩
    · -- A literal has no repetition in it, however long it is.
      rw [h, hm]
      simp [repeatDepthAll, repeatDepth]
    · rw [h, repeatDepthAll]

theorem repeatDepthAll_parts (e : Regex) : repeatDepthAll e.parts = e.repeatDepth := by
  induction e using inductionOn with
  | empty => rfl
  | sequence l ih =>
    have hall : ∀ m : List Regex, (∀ e ∈ m, repeatDepthAll e.parts = e.repeatDepth) →
        repeatDepthAll (partsAll m) = repeatDepthAll m := by
      intro m hm
      induction m with
      | nil => rfl
      | cons e m ihm =>
        rw [partsAll, repeatDepthAll_append, repeatDepthAll, hm e List.mem_cons_self,
          ihm fun x hx => hm x (List.mem_cons_of_mem _ hx)]
    exact hall l ih
  | _ => simp [parts, repeatDepthAll]

theorem repeatDepthAll_partsAll (l : List Regex) :
    repeatDepthAll (partsAll l) = repeatDepthAll l := by
  induction l with
  | nil => rfl
  | cons e l ih =>
    rw [partsAll, repeatDepthAll_append, repeatDepthAll_parts, ih, repeatDepthAll]

theorem repeatDepth_seq (l : List Regex) : (seq l).repeatDepth = repeatDepthAll l := by
  rw [seq_eq_ofParts, ← repeatDepthAll_partsAll, ← repeatDepthAll_joinText]
  generalize joinText (partsAll l) = m
  match m with
  | [] => rfl
  | [e] => simp [ofParts, repeatDepthAll]
  | _ :: _ :: _ => rfl

theorem distributes_lt_repeatDepth (n : Nat) : Distributes fun e => n < e.repeatDepth where
  choice := fun _ => lt_repeatDepthAll
  plain := by
    intro e s h
    unfold plainSet? at h
    split at h <;> cases h <;> exact Iff.rfl
  fail := Nat.not_lt_zero n
  union := by
    intro s t
    simp [repeatDepth]

theorem repeatDepth_alt (l : List Regex) : (alt l).repeatDepth = repeatDepthAll l := by
  refine eq_of_forall_lt_iff fun n => ?_
  rw [(distributes_lt_repeatDepth n).alt, lt_repeatDepthAll]

theorem repeatDepth_bracketUnion (l : List Regex) : (bracketUnion l).repeatDepth = 0 := by
  apply Nat.eq_zero_of_not_pos
  intro h
  obtain ⟨e, he, h⟩ := ((distributes_lt_repeatDepth 0).unionOf _).1 h
  obtain ⟨m, -, rfl⟩ := List.mem_map.1 he
  cases m <;> exact Nat.lt_irrefl 0 h

/-- Where complements and intersections are in normal form, what matches single characters repeats
    nothing. -/
theorem repeatDepth_of_isCharSetLike {D : Demands} {e : Regex} (he : e.Fit D)
    (h : e.isCharSetLike = true) : e.repeatDepth = 0 := by
  induction e using inductionOn with
  | choice l ih =>
    have hlike := allCharSetLike_iff.1 h
    have hl := (fit_choice.1 he).2
    exact repeatDepthAll_eq_zero_iff.2 fun e he => ih e he (hl e he) (hlike e he)
  | complement e _ =>
    rcases isNegatable_iff.1 (fit_complement.1 he).1 with ⟨s, rfl⟩ | ⟨k, rfl⟩ | ⟨k, rfl⟩ <;> rfl
  | intersection l ih =>
    obtain ⟨⟨hnormal, -⟩, hl⟩ := fit_intersection.1 he
    exact repeatDepthAll_eq_zero_iff.2 fun e he => ih e he (hl e he) (hnormal.2.1 e he).1
  | _ => first | rfl | cases h

theorem repeatDepthAll_map {f : Regex → Regex} {l : List Regex}
    (h : ∀ e ∈ l, (f e).repeatDepth = e.repeatDepth) :
    repeatDepthAll (l.map f) = repeatDepthAll l := by
  induction l with
  | nil => rfl
  | cons e l ih =>
    rw [List.map_cons, repeatDepthAll, repeatDepthAll, h e List.mem_cons_self,
      ih fun x hx => h x (List.mem_cons_of_mem _ hx)]

/-- What is read back has chains of repetitions as long as what was written. -/
theorem repeatDepth_readBack {e : Regex} (he : e.Fit orderedDemands) (hw : e.Writable) :
    e.readBack.repeatDepth = e.repeatDepth := by
  induction e using inductionOn with
  | sequence l ih =>
    have hl := (fit_sequence.1 he).2
    rw [readBack, readBackAll_eq_map, repeatDepth_seq, repeatDepth]
    exact repeatDepthAll_map fun e hmem => ih e hmem (hl e hmem) (writable_sequence.1 hw e hmem)
  | choice l ih =>
    have hl := (fit_choice.1 he).2
    rw [readBack, repeatDepth]
    rcases writable_choice.1 hw with ⟨hb, text, htext⟩ | ⟨hb, hall⟩
    · rw [if_pos hb, repeatDepth_bracketUnion, eq_comm, repeatDepthAll_eq_zero_iff]
      intro e hmem
      obtain ⟨t, ht⟩ := bracketItem_of_bracketItems htext hmem
      exact (flat_of_isSome_bracketItem (Option.isSome_of_eq_some ht)).2.1
    · rw [if_neg (Bool.eq_false_iff.1 hb), readBackAll_eq_map, repeatDepth_alt]
      exact repeatDepthAll_map fun e hmem => ih e hmem (hl e hmem) (hall e hmem)
  | repetition n m g e ih =>
    rw [readBack, repeatDepth, repeatDepth,
      ih (fit_repetition.1 he).2 (writable_repetition.1 hw)]
  | group e ih => exact ih (fit_group.1 he) (writable_group.1 hw)
  | syntaxClass k => cases k <;> rfl
  | set s =>
    show (readBackSet s).repeatDepth = 0
    unfold readBackSet
    split
    · rfl
    · split
      · rfl
      · split <;> rfl
  | complement e _ =>
    rw [repeatDepth_of_isCharSetLike he rfl]
    apply repeatDepth_of_isCharSetLike (fit_readBack he)
    show (readBackComplement e).isCharSetLike = true
    unfold readBackComplement
    split
    · split
      · rfl
      · split <;> rfl
    · rfl
    · rfl
    · rfl
  | intersection l _ =>
    rw [repeatDepth_of_isCharSetLike he rfl]
    exact repeatDepth_of_isCharSetLike (fit_readBack he) (isCharSetLike_bracketExclusion l)
  | _ => rfl

/-! ## Without groups of the writer's own -/

/-- Where no group counts that is put around a back reference, parts nest one by one. -/
theorem nestingAll_le_iff {own n : Nat} {l : List Regex} :
    nestingAll own 0 l ≤ n ↔ ∀ e ∈ l, nesting own e + e.wraps .branch ≤ n := by
  induction l with
  | nil => simp [nestingAll]
  | cons e l ih => rw [nestingAll, ite_self, Nat.add_zero, Nat.max_le, ih, List.forall_mem_cons]

theorem nestingAll_congr {own own' : Nat} {l : List Regex}
    (h : ∀ e ∈ l, nesting own e = nesting own' e) :
    nestingAll own 0 l = nestingAll own' 0 l := by
  refine eq_of_forall_ge_iff fun n => ?_
  rw [nestingAll_le_iff, nestingAll_le_iff]
  exact forall₂_congr fun e he => by rw [h e he]

theorem nestingAll_of_not_anyGuarded {own guard : Nat} {l : List Regex}
    (h : anyGuarded l = false) : nestingAll own guard l = nestingAll own 0 l := by
  induction l with
  | nil => rfl
  | cons e l ih =>
    obtain ⟨he, hl⟩ := Bool.or_eq_false_iff.1 h
    rw [nestingAll, nestingAll, he, ih hl]
    rfl

/-- Where no node gives the writer a reason for a group of its own, it does not matter what such
    groups count. -/
theorem nesting_eq {own own' : Nat} {e : Regex} (h : e.Everywhere fun x => bringsGroup x = false) :
    nesting own e = nesting own' e := by
  induction e using inductionOn with
  | primitive p =>
    have hp : ¬ p = .anything := by simpa [bringsGroup] using h
    rw [nesting, nesting, if_neg hp, if_neg hp]
  | sequence l ih =>
    obtain ⟨hguard, hl⟩ := everywhere_sequence.1 h
    have hguard : anyGuarded l = false := hguard
    calc nestingAll own own l = nestingAll own 0 l := nestingAll_of_not_anyGuarded hguard
      _ = nestingAll own' 0 l := nestingAll_congr fun e he => ih e he (hl e he)
      _ = nestingAll own' own' l := (nestingAll_of_not_anyGuarded hguard).symm
  | choice l ih =>
    have hl := (everywhere_choice.1 h).2
    exact nestingAll_congr fun e he => ih e he (hl e he)
  | repetition n m g e ih =>
    obtain ⟨hrep, he⟩ := everywhere_repetition.1 h
    have hrep : isRepetition e = false := hrep
    rw [nesting, nesting, ih he, hrep]
    rfl
  | group e ih => rw [nesting, nesting, ih (everywhere_group.1 h).2]
  | _ => rfl

end RegexDialects.Regex
