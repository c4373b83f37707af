import RegexDialects.Proofs.LastPiece

/-!
# Quantifiers that apply to another piece

Two readings of a branch, one of which has an empty piece more, with the quantifiers of the piece in
front of it (`Beside`). The text behind is the same, so both read the same row of quantifiers
(`quantified_eq_readRow`) and the same pieces after it, step by step (`Alongside`). An end mark of a
quotation hands further quantifiers to the latest piece; then, too, both read the same row, and the
two pieces stay twins (`Twins.applyAll`). The reading with the empty piece is never nested deeper.
-/

set_option autoImplicit false

namespace RegexDialects.Pattern

open Regex

/-! ## Rows of quantifiers -/

/-- What a quantifier makes of a tree. -/
def Quantifier.apply (q : Quantifier) (e : Regex) : Regex :=
  if q.most = some 0 then .empty else .repetition q.least q.most q.greedy e

/-- What a row of quantifiers makes of a tree, the innermost one first. -/
def applyAll (qs : List Quantifier) (e : Regex) : Regex :=
  qs.foldl (fun e q => q.apply e) e

theorem repeated_eq_apply {q : Quantifier} (h : q.isInverted = false) (e : Regex) :
    repeated q.least q.most q.greedy e = .ok (q.apply e) := by
  unfold Quantifier.isInverted at h
  unfold repeated Quantifier.apply
  cases hm : q.most with
  | none => rfl
  | some m =>
    rw [hm] at h
    simp only [decide_eq_false_iff_not] at h
    simp only [if_neg h, Option.some.injEq]
    split <;> rfl

/-- Reads a row of quantifiers, of which `budget` are allowed, without applying them. -/
def readRow (g : QuantifierGrammar) (budget : Nat) (text : List Char) :
    Reading (List Quantifier) :=
  match g.read? (g.skip text) with
  | .error f => .error f
  | .ok none => .ok ([], g.skip text)
  | .ok (some (q, rest)) =>
    if q.isInverted then .error ⟨.invertedRepetition, g.skip text, rest⟩
    else
      match budget with
      | 0 => .error ⟨.tooDeep, g.skip text, rest⟩
      | budget + 1 => (readRow g budget rest).map fun r => (q :: r.1, r.2)

/-- Which quantifiers follow a tree does not depend on the tree. -/
theorem quantified_eq_readRow (g : QuantifierGrammar) (budget : Nat) (e : Regex)
    (text : List Char) :
    quantified g budget e text = (readRow g budget text).map fun r => (applyAll r.1 e, r.2) := by
  induction budget generalizing e text with
  | zero =>
    unfold quantified readRow
    cases g.read? (g.skip text) with
    | error f => rfl
    | ok r =>
      rcases r with _ | ⟨q, rest⟩
      · rfl
      · simp only
        split <;> rfl
  | succ budget ih =>
    unfold quantified readRow
    cases g.read? (g.skip text) with
    | error f => rfl
    | ok r =>
      rcases r with _ | ⟨q, rest⟩
      · rfl
      · simp only
        split
        · rfl
        · next hinv =>
          rw [repeated_eq_apply (Bool.eq_false_iff.2 hinv)]
          simp only [ih]
          cases readRow g budget rest <;> rfl

/-- With more quantifiers allowed the same row is read, unless it was too long. -/
theorem readRow_of_le (g : QuantifierGrammar) {budget budget' : Nat} (hle : budget ≤ budget')
    (text : List Char) :
    Pcre.IsTooDeep (readRow g budget text) ∨ readRow g budget' text = readRow g budget text := by
  induction budget generalizing budget' text with
  | zero =>
    unfold readRow
    cases g.read? (g.skip text) with
    | error f => exact Or.inr rfl
    | ok r =>
      rcases r with _ | ⟨q, rest⟩
      · exact Or.inr rfl
      · simp only
        split
        · exact Or.inr rfl
        · exact Or.inl ⟨_, rfl, rfl⟩
  | succ budget ih =>
    obtain ⟨budget', rfl⟩ := Nat.exists_eq_add_of_le' (Nat.le_trans (Nat.succ_pos _) hle)
    unfold readRow
    cases g.read? (g.skip text) with
    | error f => exact Or.inr rfl
    | ok r =>
      rcases r with _ | ⟨q, rest⟩
      · exact Or.inr rfl
      · simp only
        split
        · exact Or.inr rfl
        · rcases ih (Nat.le_of_succ_le_succ hle) rest with ⟨f, heq, hk⟩ | heq
          · rw [heq]
            exact Or.inl ⟨f, rfl, hk⟩
          · rw [heq]
            exact Or.inr rfl

theorem repeatDepth_applyAll_le (qs : List Quantifier) {e x : Regex}
    (h : x.repeatDepth ≤ e.repeatDepth) :
    (applyAll qs x).repeatDepth ≤ (applyAll qs e).repeatDepth := by
  induction qs generalizing e x with
  | nil => exact h
  | cons q qs ih =>
    apply ih
    show (q.apply x).repeatDepth ≤ (q.apply e).repeatDepth
    unfold Quantifier.apply
    split
    · exact Nat.le_refl 0
    · exact Nat.add_le_add_left h 1

theorem applyAll_append (qs qs' : List Quantifier) (e : Regex) :
    applyAll (qs ++ qs') e = applyAll qs' (applyAll qs e) :=
  List.foldl_append

/-- At a quantifier a row begins. -/
theorem readRow_ne_nil {g : QuantifierGrammar} {budget : Nat} {text rest : List Char}
    {qs : List Quantifier} (hq : g.read? (g.skip text) ≠ .ok none)
    (h : readRow g budget text = .ok (qs, rest)) : qs ≠ [] := by
  unfold readRow at h
  split at h
  · cases h
  · next heq => exact absurd heq hq
  · split at h
    · cases h
    · cases budget with
      | zero => cases h
      | succ budget =>
        obtain ⟨r, -, hr⟩ := map_eq_ok_iff.1 h
        cases hr
        exact List.cons_ne_nil _ _

namespace Pcre

/-! ## Two readings side by side -/

/-- What is read with the empty piece, `r'`, if `r` is what is read without it: the same failure, or
    something similar, up to the same place. Only if `r` was nested too deeply nothing is said. -/
def Alongside {α : Type} (R : α → α → Prop) (r r' : Except Fault (α × Cursor)) : Prop :=
  match r with
  | .error f => f.kind = .tooDeep ∨ r' = .error f
  | .ok (a, cur) => ∃ b, r' = .ok (b, cur) ∧ R a b

theorem Alongside.bind {α β : Type} {R : α → α → Prop} {S : β → β → Prop}
    {r r' : Except Fault (α × Cursor)} {k k' : α × Cursor → Except Fault (β × Cursor)}
    (h : Alongside R r r')
    (hk : ∀ {a b cur}, r = .ok (a, cur) → R a b → Alongside S (k (a, cur)) (k' (b, cur))) :
    Alongside S (r >>= k) (r' >>= k') := by
  match r with
  | .error f =>
    rcases h with h | rfl
    · exact Or.inl h
    · exact Or.inr rfl
  | .ok (a, cur) =>
    obtain ⟨b, rfl, hab⟩ := h
    exact hk rfl hab

/-- What a row of quantifiers makes of `e`, and of an empty piece. -/
def Twins (e x y : Regex) : Prop :=
  ∃ qs, qs ≠ [] ∧ x = applyAll qs e ∧ y = applyAll qs .empty

/-- The pieces of a branch where quantifiers apply to the piece `e`, and those where they apply to
    an empty piece behind it. The pieces after them are the same, and so are those in front, `l`. -/
inductive Beside (e : Regex) (l : List Regex) : List Regex → List Regex → Prop
  | twins {x y : Regex} (h : Twins e x y) : Beside e l (x :: l) (y :: e :: l)
  | cons (z : Regex) {m n : List Regex} : Beside e l m n → Beside e l (z :: m) (z :: n)

/-- The same of the states of a reader. -/
structure Abreast (e : Regex) (l : List Regex) (done done' : Progress) : Prop where
  pieces : Beside e l done.pieces done'.pieces
  flags : done'.flags = done.flags

variable {e : Regex} {l : List Regex}

theorem Twins.applyAll {x y : Regex} (h : Twins e x y) (qs : List Quantifier) :
    Twins e (applyAll qs x) (applyAll qs y) := by
  obtain ⟨qs', hne, rfl, rfl⟩ := h
  refine ⟨qs' ++ qs, List.append_ne_nil_of_left_ne_nil hne qs, ?_, ?_⟩
  · exact (applyAll_append qs' qs e).symm
  · exact (applyAll_append qs' qs .empty).symm

theorem Twins.repeatDepth_le {x y : Regex} (h : Twins e x y) : y.repeatDepth ≤ x.repeatDepth := by
  obtain ⟨qs, -, rfl, rfl⟩ := h
  exact repeatDepth_applyAll_le qs (Nat.zero_le _)

/-- A tree that is nested less deeply takes all the quantifiers that another one takes. -/
theorem alongside_addPiece (levels : Nat) {R : Progress → Progress → Prop} {flags : Flags}
    {pieces pieces' : List Regex} {x y : Regex} {cur : Cursor}
    (hdepth : y.repeatDepth ≤ x.repeatDepth)
    (h : ∀ {qs rest}, readRow (quantifiers flags) (levels - x.repeatDepth) cur.rest =
        .ok (qs, rest) → R ⟨applyAll qs x :: pieces, flags⟩ ⟨applyAll qs y :: pieces', flags⟩) :
    Alongside R (addPiece levels flags pieces x cur) (addPiece levels flags pieces' y cur) := by
  unfold addPiece
  rw [quantified_eq_readRow, quantified_eq_readRow]
  rcases readRow_of_le (quantifiers flags) (Nat.sub_le_sub_left hdepth levels) cur.rest with
    ⟨f, heq, hk⟩ | heq
  · rw [heq]
    exact Or.inl hk
  · rw [heq]
    cases hrow : readRow (quantifiers flags) (levels - x.repeatDepth) cur.rest with
    | error f => exact Or.inr rfl
    | ok r => exact ⟨_, rfl, h hrow⟩

/-- One more piece, on both sides. -/
theorem alongside_addPiece_self (levels : Nat) {flags : Flags} {m n : List Regex}
    (h : Beside e l m n) (x : Regex) (cur : Cursor) :
    Alongside (Abreast e l) (addPiece levels flags m x cur) (addPiece levels flags n x cur) :=
  alongside_addPiece levels (Nat.le_refl _) fun _ => ⟨h.cons _, rfl⟩

theorem alongside_addAtom (levels : Nat) {done done' : Progress} (h : Abreast e l done done')
    (a : Atom) (cur : Cursor) :
    Alongside (Abreast e l) (addAtom levels done a cur) (addAtom levels done' a cur) := by
  obtain ⟨pieces, flags⟩ := done
  obtain ⟨pieces', flags'⟩ := done'
  obtain ⟨hp, rfl⟩ := h
  unfold addAtom
  cases a with
  | flags f => exact ⟨_, rfl, hp, rfl⟩
  | piece x => exact alongside_addPiece_self levels hp x cur
  | quoted text =>
    simp only
    cases text.reverse with
    | nil => exact ⟨_, rfl, hp, rfl⟩
    | cons c text => exact alongside_addPiece_self levels (hp.cons _) _ cur
  | nothing =>
    -- An end mark of a quotation hands further quantifiers to the latest piece.
    cases hp with
    | twins ht =>
      refine alongside_addPiece levels ht.repeatDepth_le ?_
      rintro qs rest -
      exact ⟨.twins (ht.applyAll qs), rfl⟩
    | cons z hp => exact alongside_addPiece_self levels hp z cur

theorem alongside_step (deeper : Option Inside) (levels : Nat) {done done' : Progress}
    (h : Abreast e l done done') (cur : Cursor) :
    Alongside (Abreast e l) (step deeper levels done cur) (step deeper levels done' cur) := by
  unfold step
  rw [h.flags]
  cases atom deeper done.flags cur with
  | error f => exact Or.inr rfl
  | ok r => exact alongside_addAtom levels h r.1 r.2

theorem alongside_steps (deeper : Option Inside) (levels : Nat) {done done' : Progress}
    (h : Abreast e l done done') (cur : Cursor) :
    Alongside (Abreast e l) (steps deeper levels done cur) (steps deeper levels done' cur) := by
  induction hn : cur.rest.length using Nat.strongRecOn generalizing cur done done' with
  | _ n ih =>
    cases hends : branchEnds (cur.skip done.flags).rest with
    | true =>
      rw [steps_eq_ok done hends, steps_eq_ok done' (h.flags.symm ▸ hends), h.flags]
      exact ⟨done', rfl, h⟩
    | false =>
      rw [steps_eq_bind done hends, steps_eq_bind done' (h.flags.symm ▸ hends), h.flags]
      refine (alongside_step deeper levels h (cur.skip done.flags)).bind ?_
      intro a b next hstep hab
      have hlt : next.rest.length < cur.rest.length :=
        ((step_advances hstep).suffix_of (skip_suffix _ _)).2
      exact ih _ (hn ▸ hlt) hab next rfl

/-- The same of the branches of an expression. -/
def BesideIn (e : Regex) (l before : List Regex) (branches branches' : List Regex) : Prop :=
  ∃ m n after, Beside e l m n ∧ branches = before ++ .seq m.reverse :: after ∧
    branches' = before ++ .seq n.reverse :: after

theorem alongside_finish (levels : Nat) (flags : Flags) (x y : Regex) (cur : Cursor) :
    Alongside (fun l l' => ∃ after, l = x :: after ∧ l' = y :: after)
      (finish levels flags x cur) (finish levels flags y cur) := by
  by_cases hbar : ∃ rest, cur.rest = '|' :: rest
  · obtain ⟨rest, hrest⟩ := hbar
    obtain ⟨_, groups⟩ := cur
    cases hrest
    rw [finish_bar, finish_bar]
    cases branches (below levels) levels flags ⟨rest, groups⟩ with
    | error f => exact Or.inr rfl
    | ok r => exact ⟨_, rfl, r.1, rfl, rfl⟩
  · rw [not_exists] at hbar
    rw [finish_of_not_bar levels flags x hbar, finish_of_not_bar levels flags y hbar]
    exact ⟨_, rfl, [], rfl, rfl⟩

theorem alongside_readOn (levels : Nat) (before : List Regex) {done done' : Progress}
    (h : Abreast e l done done') (cur : Cursor) :
    Alongside (BesideIn e l before) (Place.readOn levels ⟨before, done, cur⟩)
      (Place.readOn levels ⟨before, done', cur⟩) := by
  unfold Place.readOn
  refine (alongside_steps (below levels) levels h cur).bind ?_
  rintro a b next - hab
  rw [hab.flags]
  refine (alongside_finish levels a.flags _ _ next).bind ?_
  rintro _ _ last - ⟨after, rfl, rfl⟩
  exact ⟨_, rfl, _, _, after, hab.pieces, rfl, rfl⟩

end Pcre

end RegexDialects.Pattern
