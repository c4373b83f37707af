import RegexDialects.Pattern.Bracket
import RegexDialects.Pattern.Quantifier
import RegexDialects.Proofs.Built
import RegexDialects.Proofs.Member

/-!
# What a reader puts together

A reader returns a tree that it put together by a handful of functions. A property that these
functions keep (`Assembly`) therefore holds of every tree a reader returns, whatever the pattern.
This module shows it for what the dialects share: quantifiers and bracket expressions. Each dialect
goes on in a module of its own; that of Emacs has more to put together.
-/

set_option autoImplicit false

namespace RegexDialects.Pattern

open Regex

/-- A property that holds of all that a reader of PCRE takes for one character or position. -/
structure Leaves (P : Regex → Prop) : Prop where
  literal : ∀ c, P (.literal [c])
  primitive : ∀ p, p.pcre?.isSome = true → P (.primitive p)
  backref : ∀ n, 1 ≤ n → n ≤ maxNumber → P (.backref n)
  member : ∀ m : Member, m.IsSpelled → P m.tree
  bracket : ∀ {negated ms e}, ms ≠ [] → (∀ m ∈ ms, m.IsSpelled) →
    bracketTree negated (ms.map Member.tree) = .ok e → P e

/-- A property that holds of all that a reader of PCRE may put together. -/
structure Assembly (P : Regex → Prop) : Prop where
  text : ∀ t, P (.text t)
  primitive : ∀ p, p.pcre?.isSome = true → P (.primitive p)
  backref : ∀ n, 1 ≤ n → n ≤ maxNumber → P (.backref n)
  group : ∀ e, P e → P (.group e)
  repeated : ∀ {least most greedy e e'}, P e → BoundsFit least most →
    repeated least most greedy e = .ok e' → P e'
  seq : ∀ l, (∀ e ∈ l, P e) → P (.seq l)
  alt : ∀ l, l ≠ [] → (∀ e ∈ l, P e) → P (.alt l)
  member : ∀ m : Member, m.IsSpelled → P m.tree
  bracket : ∀ {negated ms e}, ms ≠ [] → (∀ m ∈ ms, m.IsSpelled) →
    bracketTree negated (ms.map Member.tree) = .ok e → P e

variable {P : Regex → Prop}

/-- What holds of all that is put together holds of the smallest parts. -/
theorem Assembly.leaves (hP : Assembly P) : Leaves P :=
  ⟨fun c => hP.text [c], hP.primitive, hP.backref, hP.member, hP.bracket⟩

/-! ## Quantifiers -/

namespace Bounds

theorem number?_le {start text rest : List Char} {n : Option Nat}
    (h : number? start text = .ok (n, rest)) : ∀ k ∈ n, k ≤ maxNumber := by
  unfold number? at h
  split at h
  · -- Without digits there is no number.
    cases h
    intro k hk
    cases hk
  · split at h
    · simp at h
    · next hle =>
      cases h
      intro k hk
      cases hk
      exact Nat.le_of_not_lt hle

/-- Bounds that were read are numbers that fit. -/
theorem boundsFit_of_read? {closing start text rest : List Char} {b : Bounds}
    (h : read? closing start text = .ok (some (b, rest))) : BoundsFit b.least b.most := by
  unfold read? at h
  split at h
  · simp at h
  · next least? mid hl =>
    split at h
    · simp at h
    · next most? mid' hu =>
      simp only [Except.ok.injEq, Option.map_eq_some_iff, Prod.mk.injEq] at h
      obtain ⟨_, _, rfl, rfl⟩ := h
      have hleast : least?.getD 0 ≤ maxNumber := by
        cases least? with
        | none => exact Nat.zero_le _
        | some n => exact number?_le hl n rfl
      refine ⟨hleast, ?_⟩
      intro k hk
      unfold Bounds.most at hk
      split at hk
      · -- Behind a comma the upper bound is a number of its own, or there is none.
        next hc =>
        simp only at hc hk
        unfold upper? at hu
        split at hu
        · exact number?_le hu k hk
        · cases hu
          simp at hk
      · -- Without a comma it is the lower one.
        cases hk
        exact hleast

end Bounds

/-- The bounds of an operator are zero, one, or none. -/
theorem boundsFit_of_operatorBounds? {c : Char} {least : Nat} {most : Option Nat}
    (h : operatorBounds? c = some (least, most)) : BoundsFit least most := by
  unfold operatorBounds? at h
  split at h
  · cases h
    refine ⟨Nat.zero_le _, ?_⟩
    intro k hk
    cases hk
  · split at h
    · cases h
      refine ⟨digit_le_maxNumber (Nat.le_add_left 1 8), ?_⟩
      intro k hk
      cases hk
    · split at h
      · cases h
        refine ⟨Nat.zero_le _, ?_⟩
        intro k hk
        cases hk
        exact digit_le_maxNumber (Nat.le_add_left 1 8)
      · simp at h

/-- What a quantifier keeps, all quantifiers keep. Where one more is read, the repetitions so far
    have left a level for it. -/
theorem keeps_quantified_within {g : QuantifierGrammar} (levels : Nat)
    (hP : ∀ {text rest q e e'}, P e → e.repeatDepth < levels →
      g.read? text = .ok (some (q, rest)) → repeated q.least q.most q.greedy e = .ok e' → P e')
    {budget : Nat} {e e' : Regex} {text rest : List Char} (he : P e)
    (hb : 0 < budget → budget + e.repeatDepth ≤ levels)
    (h : quantified g budget e text = .ok (e', rest)) : P e' := by
  induction budget generalizing e text with
  | zero =>
    unfold Pattern.quantified at h
    split at h
    · simp at h
    · cases h
      exact he
    · -- One more quantifier is too many here.
      split at h <;> simp at h
  | succ budget ih =>
    have hlevels : budget + 1 + e.repeatDepth ≤ levels := hb (Nat.succ_pos budget)
    unfold Pattern.quantified at h
    split at h
    · simp at h
    · cases h
      exact he
    · next hq =>
      split at h
      · simp at h
      · simp only at h
        split at h
        · simp at h
        · next hr =>
          refine ih (hP he (by omega) hq hr) ?_ h
          intro _
          -- A repetition is one level deeper, unless it has collapsed.
          rcases repeated_cases hr with ⟨-, rfl⟩ | ⟨-, rfl⟩
          · show budget + 0 ≤ levels
            omega
          · show budget + (1 + e.repeatDepth) ≤ levels
            omega

/-- The same for a property that takes no notice of levels. -/
theorem keeps_quantified {g : QuantifierGrammar}
    (hP : ∀ {text rest q e e'}, P e → g.read? text = .ok (some (q, rest)) →
      repeated q.least q.most q.greedy e = .ok e' → P e')
    {budget : Nat} {e e' : Regex} {text rest : List Char} (he : P e)
    (h : quantified g budget e text = .ok (e', rest)) : P e' :=
  keeps_quantified_within _ (fun he _ hq hr => hP he hq hr) he (fun _ => Nat.le_refl _) h

/-! ## Bracket expressions -/

/-- What a dialect has for members of bracket expressions: characters, ranges in order, and such
    classes as satisfy `Q`. -/
structure BracketGrammar.Spells (g : BracketGrammar) (Q : Member → Prop) : Prop where
  char : ∀ c, Q (.item (.char c))
  range : ∀ {lo hi}, lo ≤ hi → Q (.item (.range lo hi))
  named : ∀ {name e}, namedClass? g.negatedNames name = some e → ∃ m : Member, Q m ∧ m.tree = e
  tree : ∀ {whole text rest e}, g.atom whole text = .ok (.tree e, rest) →
    ∃ m : Member, Q m ∧ m.tree = e

/-- The classes of a dialect are members of bracket expressions. -/
def BracketGrammar.SpellsMembers (g : BracketGrammar) : Prop :=
  ∀ {whole text rest e}, g.atom whole text = .ok (.tree e, rest) →
    ∃ m : Member, m.IsSpelled ∧ m.tree = e

/-- A name stands for a class, or for the complement of one. -/
theorem exists_member_of_namedClass? {negatable : Bool} {name : List Char} {e : Regex}
    (h : namedClass? negatable name = some e) : ∃ m : Member, m.IsSpelled ∧ m.tree = e := by
  unfold namedClass? at h
  split at h
  · split at h
    · obtain ⟨k, -, rfl⟩ := Option.map_eq_some_iff.1 h
      exact ⟨.except k, trivial, rfl⟩
    · simp at h
  · obtain ⟨k, -, rfl⟩ := Option.map_eq_some_iff.1 h
    exact ⟨.item (.posix k), trivial, rfl⟩

theorem BracketGrammar.SpellsMembers.spells {g : BracketGrammar} (hg : g.SpellsMembers) :
    g.Spells Member.IsSpelled where
  char := fun _ => trivial
  range := fun h => h
  named := exists_member_of_namedClass?
  tree := hg

section Brackets

variable {g : BracketGrammar} {Q : Member → Prop}

theorem exists_member_of_readClass? (hg : g.Spells Q) {text rest : List Char} {e : Regex}
    (h : readClass? g.negatedNames text = .ok (some (e, rest))) :
    ∃ m : Member, Q m ∧ m.tree = e := by
  unfold readClass? at h
  split at h
  · simp at h
  · simp at h
  · split at h
    · split at h
      · next hn =>
        cases h
        exact hg.named hn
      · simp at h
    · simp at h
  · simp at h

/-- An item is a character, a range or a class. -/
theorem exists_member_of_item (hg : g.Spells Q) {whole text rest : List Char} {e : Regex}
    (h : g.item whole text = .ok (e, rest)) : ∃ m : Member, Q m ∧ m.tree = e := by
  unfold BracketGrammar.item at h
  split at h
  · simp at h
  · next ha =>
    cases h
    exact hg.tree ha
  · next lo _ _ =>
    split at h
    · split at h
      · cases h
        exact ⟨.item (.char lo), hg.char lo, rfl⟩
      · -- A hyphen that is not the last character makes a range, whose ends are in order.
        unfold BracketGrammar.rangeEnd at h
        split at h
        · simp at h
        · next hi _ _ =>
          split at h
          · next hle =>
            cases h
            exact ⟨.item (.range lo hi), hg.range hle, rfl⟩
          · simp at h
        · simp at h
    · cases h
      exact ⟨.item (.char lo), hg.char lo, rfl⟩

/-- A member is a name of a class or an item. -/
theorem exists_member_of_member? (hg : g.Spells Q) {whole text rest : List Char}
    {first : Bool} {e : Regex} (h : g.member? whole first text = .ok (some e, rest)) :
    ∃ m : Member, Q m ∧ m.tree = e := by
  unfold BracketGrammar.member? at h
  split at h
  · simp at h
  · split at h
    · simp at h
    · split at h
      · simp at h
      · next hc =>
        cases h
        exact exists_member_of_readClass? hg hc
      · split at h
        · simp at h
        · next hi =>
          cases h
          exact exists_member_of_item hg hi

/-- In front of the first member a bracket expression does not end. -/
theorem member?_first_ne_none {whole text rest : List Char} :
    g.member? whole true text ≠ .ok (none, rest) := by
  intro h
  unfold BracketGrammar.member? at h
  split at h
  · simp at h
  · split at h
    · next hc => simp at hc
    · split at h
      · simp at h
      · simp at h
      · split at h <;> simp at h

/-- What is read between brackets are members, and there is one. -/
theorem exists_members (hg : g.Spells Q) {whole text rest : List Char} {first : Bool}
    {l : List Regex} (h : g.members whole first text = .ok (l, rest)) :
    ∃ ms : List Member, l = ms.map Member.tree ∧ (∀ m ∈ ms, Q m) ∧
      (first = true → ms ≠ []) := by
  induction hn : text.length using Nat.strongRecOn generalizing first text l with
  | _ n ih =>
    unfold BracketGrammar.members at h
    split at h
    · simp at h
    · -- The end is read, so this is not the first member.
      next hm =>
      cases h
      refine ⟨[], rfl, ?_, ?_⟩
      · intro m hm
        exact absurd hm List.not_mem_nil
      · intro hfirst
        rw [hfirst] at hm
        exact absurd hm member?_first_ne_none
    · next e mid hm =>
      split at h
      · simp at h
      · next hl =>
        cases h
        obtain ⟨m, hs, rfl⟩ := exists_member_of_member? hg hm
        obtain ⟨ms, rfl, hall, -⟩ := ih _ (hn ▸ (g.member?_advances hm).2) hl rfl
        refine ⟨m :: ms, rfl, ?_, fun _ => List.cons_ne_nil _ _⟩
        intro x hx
        rcases List.mem_cons.1 hx with rfl | hx
        · exact hs
        · exact hall x hx

/-- A bracket expression is the tree of its members, and there is one. -/
theorem exists_bracketTree (hg : g.Spells Q) {text rest : List Char} {e : Regex}
    (h : g.read text = .ok (e, rest)) :
    ∃ negated ms, ms ≠ [] ∧ (∀ m ∈ ms, Q m) ∧ bracketTree negated (ms.map Member.tree) = .ok e := by
  simp only [BracketGrammar.read] at h
  split at h
  · simp at h
  · next hl =>
    obtain ⟨ms, rfl, hall, hne⟩ := exists_members hg hl
    split at h
    · simp at h
    · next ht =>
      cases h
      exact ⟨_, ms, hne rfl, hall, ht⟩

theorem Leaves.brackets (hP : Leaves P) (hg : g.SpellsMembers) {text rest : List Char}
    {e : Regex} (h : g.read text = .ok (e, rest)) : P e := by
  obtain ⟨negated, ms, hne, hall, ht⟩ := exists_bracketTree hg.spells h
  exact hP.bracket hne hall ht

end Brackets

end RegexDialects.Pattern
