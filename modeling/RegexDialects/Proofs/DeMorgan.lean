import RegexDialects.Dialect
import RegexDialects.Proofs.EmacsAssembly
import RegexDialects.Proofs.PcreAssembly
import RegexDialects.Proofs.SetSoundness

/-!
# De Morgan's laws

A complement of a union is an intersection of complements. Two statements of it:

* on trees: for sets and single characters the two sides are the same tree, with the members in the
  same order (`intersect_complements_eq_negate_union`). The sides are computed in different ways.
  One collects the sets that are excluded, beginning with the empty set; the other merges the sets
  at the place of the first of them and then builds a choice, which drops what fails.
* on bracket expressions of either dialect: a `^` in front of the members turns what is matched into
  the complement (`denotes_negated_bracket`). The members may be complements themselves, so the two
  trees may look very different; only what they match is compared.

For the second one the reader is run twice, on `[w]` and on `[^w]`. The two runs read the same
members, since what was written in front of them is seen by error messages only (`IgnoresWhole`).
-/

set_option autoImplicit false

namespace RegexDialects.Regex

/-! ## Sets and single characters -/

/-- A set that was put together by adjoining, or a single character. -/
def IsOperand (e : Regex) : Prop :=
  (∃ s : CharSet, s.Built ∧ e = .set s) ∨ ∃ c, e = .literal [c]

/-- An operand is a tidy set, which is what its complement excludes. -/
theorem IsOperand.exists_set {e : Regex} (h : e.IsOperand) :
    ∃ s : CharSet, s.Tidy ∧ e.plainSet? = some s ∧ e.negate = .ok (.complement (.set s)) := by
  rcases h with ⟨s, hs, rfl⟩ | ⟨c, rfl⟩
  · exact ⟨s, hs.tidy, rfl, rfl⟩
  · exact ⟨.of (.char c), CharSet.tidy_of nofun, rfl, rfl⟩

theorem exists_sets_of_isOperand {l : List Regex} (h : ∀ e ∈ l, e.IsOperand) :
    ∃ sets : List CharSet, (∀ s ∈ sets, s.Tidy) ∧ l.map plainSet? = sets.map some ∧
      l.mapM negate = .ok (sets.map fun s => .complement (.set s)) := by
  induction l with
  | nil => exact ⟨[], nofun, rfl, rfl⟩
  | cons e l ih =>
    obtain ⟨s, hs, hplain, hneg⟩ := (h e List.mem_cons_self).exists_set
    obtain ⟨sets, hsets, hplains, hnegs⟩ := ih fun x hx => h x (List.mem_cons_of_mem _ hx)
    refine ⟨s :: sets, List.forall_mem_cons.2 ⟨hs, hsets⟩, ?_, ?_⟩
    · rw [List.map_cons, List.map_cons, hplain, hplains]
    · exact mapM_cons_eq_ok_iff.2 ⟨_, _, hneg, hnegs, rfl⟩

/-- Complements of sets exclude what one of the sets holds. -/
theorem intersect_complements (sets : List CharSet) :
    intersect (sets.map fun s => .complement (.set s)) =
      .ok (.complement (.set (sets.foldl .union .empty))) := by
  have hconjuncts : (operandsAll (sets.map fun s => complement (.set s))).mapM conjunct =
      .ok (sets.map .without) := by
    induction sets with
    | nil => rfl
    | cons s sets ih =>
      rw [List.map_cons, operandsAll, operands_of_ne rfl, List.singleton_append]
      exact mapM_cons_eq_ok_iff.2 ⟨_, _, rfl, ih, rfl⟩
  have hrequired : required (sets.map .without) = [] := by
    unfold required
    rw [List.filterMap_map]
    exact List.filterMap_eq_nil_iff.2 fun _ _ => rfl
  have hexcluded : excluded (sets.map .without) = sets.foldl .union .empty := by
    unfold excluded
    rw [List.filterMap_map]
    exact congrArg _ List.filterMap_some
  rw [intersect, hconjuncts, ← hexcluded, ← conjunction_of_required_eq_nil hrequired]
  rfl

/-- Tidy sets are united from the first one on, or from the empty set. -/
theorem union_of_tidy {l : List Regex} {sets : List CharSet}
    (h : l.map plainSet? = sets.map some) (hsets : ∀ s ∈ sets, s.Tidy) :
    union l = .set (sets.foldl .union .empty) := by
  cases sets with
  | nil =>
    rw [List.map_eq_nil_iff.1 h]
    rfl
  | cons s sets =>
    have hnone : ∀ e ∈ ([] : List Regex), isSymbolic e = true := nofun
    have hunion := union_of_block hnone hnone h
    rw [List.nil_append, List.append_nil, List.nil_append] at hunion
    rw [hunion, alt_singleton (e := .set _) trivial, List.foldl_cons,
      CharSet.empty_union (hsets s List.mem_cons_self)]

/-- **De Morgan's law on trees**: the intersection of the complements of sets and single characters
    is there, and it is the complement of their union, member by member. -/
theorem intersect_complements_eq_negate_union {l : List Regex} (h : ∀ e ∈ l, e.IsOperand) :
    ∃ e, (l.mapM negate >>= intersect) = .ok e ∧ (union l).negate = .ok e := by
  obtain ⟨sets, hsets, hplain, hneg⟩ := exists_sets_of_isOperand h
  refine ⟨.complement (.set (sets.foldl .union .empty)), ?_, ?_⟩
  · exact bind_eq_ok_iff.2 ⟨_, hneg, intersect_complements sets⟩
  · rw [union_of_tidy hplain hsets]
    rfl

/-- Three operands that share members: what comes again keeps the place where it came first. -/
theorem intersect_complements_eq_negate_union_shared :
    let l : List Regex :=
      [.set ((CharSet.empty.adjoin (.range 'a' 'c')).adjoin (.char 'x')), .literal ['y'],
        .set ((CharSet.empty.adjoin (.chars ['y', 'x', 'z'])).adjoin (.posix .digit))]
    (∀ e ∈ l, e.IsOperand) ∧
      (∃ e, (l.mapM negate >>= intersect) = .ok e ∧ (union l).negate = .ok e) ∧
      (union l).negate =
        .ok (.complement (.set ⟨['x', 'y', 'z'], [('a', 'c')], [.digit]⟩)) := by
  have hl : ∀ e ∈ [.set ((CharSet.empty.adjoin (.range 'a' 'c')).adjoin (.char 'x')),
      .literal ['y'],
      .set ((CharSet.empty.adjoin (.chars ['y', 'x', 'z'])).adjoin (.posix .digit))],
      IsOperand e := by
    intro e he
    simp only [List.mem_cons, List.not_mem_nil, or_false] at he
    rcases he with rfl | rfl | rfl
    · refine Or.inl ⟨_, ?_, rfl⟩
      exact .adjoin (.adjoin .empty nofun) nofun
    · exact Or.inr ⟨'y', rfl⟩
    · refine Or.inl ⟨_, ?_, rfl⟩
      exact .adjoin (.adjoin .empty nofun) nofun
  exact ⟨hl, intersect_complements_eq_negate_union hl, rfl⟩

end RegexDialects.Regex

namespace RegexDialects.Pattern

open Regex

/-! ## Readings that differ in front -/

/-- A reading, where of a refusal it is forgotten where the refused construct starts. -/
def seen {α : Type} (r : Reading α) : Except (ParseErrorKind × List Char) (α × List Char) :=
  r.mapError fun f => (f.kind, f.cursor)

/-- What reading leaves of its text, whether it succeeds or refuses. -/
def leftover {α : Type} : Reading α → List Char
  | .ok (_, rest) => rest
  | .error f => f.cursor

theorem seen_eq_iff {α : Type} {r r' : Reading α} :
    seen r = seen r' ↔
      (∃ x, r = .ok x ∧ r' = .ok x) ∨
        ∃ f f', r = .error f ∧ r' = .error f' ∧ f.kind = f'.kind ∧ f.cursor = f'.cursor := by
  cases r <;> cases r' <;> simp [seen, Except.mapError, eq_comm]

namespace BracketGrammar

variable {g : BracketGrammar}

/-- Whether items are read the same way whatever the expression around them is; it is for messages
    only. -/
def IgnoresWhole (g : BracketGrammar) : Prop :=
  ∀ whole whole' text, seen (g.atom whole text) = seen (g.atom whole' text)

theorem IgnoresWhole.rangeEnd (hg : g.IgnoresWhole) (whole whole' start : List Char) (lo : Char)
    (text : List Char) :
    seen (g.rangeEnd whole start lo text) = seen (g.rangeEnd whole' start lo text) := by
  unfold BracketGrammar.rangeEnd
  rcases seen_eq_iff.1 (hg whole whole' text) with ⟨x, hx, hx'⟩ | ⟨f, f', hf, hf', hk, hc⟩
  · rw [hx, hx']
  · rw [hf, hf']
    exact seen_eq_iff.2 (Or.inr ⟨f, f', rfl, rfl, hk, hc⟩)

theorem IgnoresWhole.item (hg : g.IgnoresWhole) (whole whole' text : List Char) :
    seen (g.item whole text) = seen (g.item whole' text) := by
  unfold BracketGrammar.item
  rcases seen_eq_iff.1 (hg whole whole' text) with ⟨x, hx, hx'⟩ | ⟨f, f', hf, hf', hk, hc⟩
  · rw [hx, hx']
    split
    · rfl
    · rfl
    · split
      · split
        · rfl
        · exact hg.rangeEnd whole whole' text _ _
      · rfl
  · rw [hf, hf']
    exact seen_eq_iff.2 (Or.inr ⟨f, f', rfl, rfl, hk, hc⟩)

theorem IgnoresWhole.member? (hg : g.IgnoresWhole) (whole whole' : List Char) (first : Bool)
    (text : List Char) :
    seen (g.member? whole first text) = seen (g.member? whole' first text) := by
  unfold BracketGrammar.member?
  cases text with
  | nil => exact seen_eq_iff.2 (Or.inr ⟨_, _, rfl, rfl, rfl, rfl⟩)
  | cons c text =>
    simp only
    split
    · rfl
    · split
      · rfl
      · rfl
      · rcases seen_eq_iff.1 (hg.item whole whole' (c :: text)) with
          ⟨x, hx, hx'⟩ | ⟨f, f', hf, hf', hk, hc⟩
        · rw [hx, hx']
        · rw [hf, hf']
          exact seen_eq_iff.2 (Or.inr ⟨f, f', rfl, rfl, hk, hc⟩)

/-- The members of an expression do not depend on what it is a part of. -/
theorem IgnoresWhole.members (hg : g.IgnoresWhole) (whole whole' : List Char) (first : Bool)
    (text : List Char) :
    seen (g.members whole first text) = seen (g.members whole' first text) := by
  induction hn : text.length using Nat.strongRecOn generalizing first text with
  | _ n ih =>
    rw [members_eq, members_eq g whole']
    rcases seen_eq_iff.1 (hg.member? whole whole' first text) with
      ⟨⟨e, rest⟩, hx, hx'⟩ | ⟨f, f', hf, hf', hk, hc⟩
    · rw [hx, hx']
      cases e with
      | none => rfl
      | some e =>
        have hlt : rest.length < n := hn ▸ (g.member?_advances hx).2
        rcases seen_eq_iff.1 (ih _ hlt false rest rfl) with
          ⟨y, hy, hy'⟩ | ⟨f, f', hf, hf', hk, hc⟩
        · simp only [hy, hy']
        · simp only [hf, hf']
          exact seen_eq_iff.2 (Or.inr ⟨f, f', rfl, rfl, hk, hc⟩)
    · rw [hf, hf']
      exact seen_eq_iff.2 (Or.inr ⟨f, f', rfl, rfl, hk, hc⟩)

/-! ## Bracket expressions, positive and negated -/

theorem caret?_of_ne {text : List Char} (h : ∀ c ∈ text.head?, c ≠ '^') :
    caret? text = (false, text) := by
  unfold caret?
  split
  · exact absurd rfl (h _ rfl)
  · rfl

/-- A bracket expression and its negation are refused at the same place, or both have a tree, made
    of the same members. -/
theorem read_negated (hw : g.IgnoresWhole) (hg : g.SpellsMembers) {text : List Char}
    (h : ∀ c ∈ text.head?, c ≠ '^') :
    (∃ f f', g.read text = .error f ∧ g.read ('^' :: text) = .error f' ∧ f.cursor = f'.cursor) ∨
      ∃ (ms : List Member) (rest : List Char), g.read text = .ok (union (ms.map Member.tree), rest) ∧
        g.read ('^' :: text) = .ok (conjunction (ms.map Member.opposite), rest) := by
  have hcaret : caret? ('^' :: text) = (true, text) := rfl
  simp only [BracketGrammar.read, caret?_of_ne h, hcaret]
  rcases seen_eq_iff.1 (hw.members ('[' :: text) ('[' :: '^' :: text) true text) with
    ⟨⟨l, rest⟩, hl, hl'⟩ | ⟨f, f', hf, hf', -, hc⟩
  · obtain ⟨ms, rfl, -⟩ := exists_members hg.spells hl
    rw [hl, hl']
    simp only [bracketTree_positive, bracketTree_negated]
    exact Or.inr ⟨ms, rest, rfl, rfl⟩
  · rw [hf, hf']
    exact Or.inl ⟨f, f', rfl, rfl, hc⟩

end BracketGrammar

/-! ## The dialects -/

theorem Emacs.ignoresWhole_brackets : Emacs.brackets.IgnoresWhole := by
  intro whole whole' text
  cases text <;> rfl

theorem Pcre.ignoresWhole_bracketEscape (whole whole' text : List Char) :
    seen (Pcre.bracketEscape whole text) = seen (Pcre.bracketEscape whole' text) := by
  cases text <;> rfl

theorem Pcre.ignoresWhole_brackets : Pcre.brackets.IgnoresWhole := by
  intro whole whole' text
  change seen (bracketAtom whole text) = seen (bracketAtom whole' text)
  unfold bracketAtom
  split
  · rfl
  · exact ignoresWhole_bracketEscape whole whole' _
  · rfl

end RegexDialects.Pattern

namespace RegexDialects

open Pattern

/-- The bracket expressions of a dialect. -/
def Dialect.brackets : Dialect → BracketGrammar
  | emacs => Emacs.brackets
  | pcre => Pcre.brackets

theorem Dialect.ignoresWhole_brackets (d : Dialect) : d.brackets.IgnoresWhole := by
  cases d with
  | emacs => exact Emacs.ignoresWhole_brackets
  | pcre => exact Pcre.ignoresWhole_brackets

theorem Dialect.spellsMembers_brackets (d : Dialect) : d.brackets.SpellsMembers := by
  cases d with
  | emacs => exact Emacs.spellsMembers_brackets
  | pcre => exact Pcre.spellsMembers_brackets

namespace Regex

theorem isCharSetLike_tree (m : Member) : m.tree.isCharSetLike = true := by
  cases m <;> rfl

theorem isCharSetLike_opposites (ms : List Member) :
    (conjunction (ms.map Member.opposite)).isCharSetLike = true := by
  apply isCharSetLike_conjunction
  intro e he
  obtain ⟨m, -, hm⟩ := List.mem_map.1 (mem_required.1 he)
  cases m with
  | item i => cases hm
  | except k =>
    cases hm
    rfl

/-- What the opposites of members match together is the complement of what the members match. -/
theorem denotes_opposites {I : Interpretation} {c : Char} {ms : List Member} :
    (conjunction (ms.map Member.opposite)).Denotes I c ↔
      ¬ (union (ms.map Member.tree)).Denotes I c := by
  rw [denotes_conjunction, denotes_union, List.forall_mem_map]
  simp only [holds_opposite, List.mem_map, exists_exists_and_eq_and, not_exists, not_and]

/-- **De Morgan's law on bracket expressions**: if `[w]` is read to its end, so is `[^w]`. One of
    them is accepted if and only if the other one is, and then `[^w]` matches exactly the characters
    that `[w]` does not, whatever the named classes are. -/
theorem denotes_negated_bracket (d : Dialect) {w tail : List Char} (hw : ∀ c ∈ w.head?, c ≠ '^')
    (h : leftover (d.brackets.read (w ++ ']' :: tail)) = tail) :
    leftover (d.brackets.read ('^' :: (w ++ ']' :: tail))) = tail ∧
      ((∃ e, d.brackets.read (w ++ ']' :: tail) = .ok (e, tail)) ↔
        ∃ e, d.brackets.read ('^' :: (w ++ ']' :: tail)) = .ok (e, tail)) ∧
      ∀ e e', d.brackets.read (w ++ ']' :: tail) = .ok (e, tail) →
        d.brackets.read ('^' :: (w ++ ']' :: tail)) = .ok (e', tail) →
        (e.isCharSetLike = true ∧ e'.isCharSetLike = true) ∧
          ∀ (I : Interpretation) (c : Char), e'.Denotes I c ↔ ¬ e.Denotes I c := by
  have hhead : ∀ c ∈ (w ++ ']' :: tail).head?, c ≠ '^' := by
    intro c hc
    cases w with
    | nil =>
      cases hc
      decide
    | cons x w => exact hw c hc
  rcases BracketGrammar.read_negated d.ignoresWhole_brackets d.spellsMembers_brackets hhead with
    ⟨f, f', hf, hf', hcursor⟩ | ⟨ms, rest, hok, hok'⟩
  · rw [hf] at h
    rw [hf, hf']
    refine ⟨hcursor.symm.trans h, ?_, nofun⟩
    constructor <;> rintro ⟨e, ⟨⟩⟩
  · rw [hok] at h
    obtain rfl : rest = tail := h
    rw [hok, hok']
    refine ⟨rfl, ⟨fun _ => ⟨_, rfl⟩, fun _ => ⟨_, rfl⟩⟩, ?_⟩
    rintro e e' ⟨⟩ ⟨⟩
    refine ⟨⟨?_, isCharSetLike_opposites ms⟩, fun I c => denotes_opposites⟩
    exact isCharSetLike_union (List.forall_mem_map.2 fun m _ => isCharSetLike_tree m)

/-- A bracket in front, a range, an escape for a complement and a class with a `^`: the positive
    expression is a choice, the negated one an intersection. -/
theorem denotes_negated_bracket_mixed :
    let w := "]a-c\\D[:^alpha:]".toList
    let e : Regex := .choice [.set ⟨[']'], [('a', 'c')], []⟩,
      .complement (.set (.of (.posix .digit))), .complement (.set (.of (.posix .alpha)))]
    let e' : Regex := .intersection [.set (.of (.posix .digit)), .set (.of (.posix .alpha)),
      .complement (.set ⟨[']'], [('a', 'c')], []⟩)]
    (∀ c ∈ w.head?, c ≠ '^') ∧
      leftover (Dialect.pcre.brackets.read (w ++ [']', 'x'])) = ['x'] ∧
      Dialect.pcre.brackets.read (w ++ [']', 'x']) = .ok (e, ['x']) ∧
      Dialect.pcre.brackets.read ('^' :: (w ++ [']', 'x'])) = .ok (e', ['x']) ∧
      ∀ (I : Interpretation) (c : Char), e'.Denotes I c ↔ ¬ e.Denotes I c := by
  intro w e e'
  have hw : ∀ c ∈ w.head?, c ≠ '^' := by
    rintro c ⟨⟩
    decide
  have hread : Dialect.pcre.brackets.read (w ++ [']', 'x']) = .ok (e, ['x']) :=
    eq_ok_of_toOption (by decide +kernel)
  have hread' : Dialect.pcre.brackets.read ('^' :: (w ++ [']', 'x'])) = .ok (e', ['x']) :=
    eq_ok_of_toOption (by decide +kernel)
  have hleft : leftover (Dialect.pcre.brackets.read (w ++ ']' :: ['x'])) = ['x'] := by
    rw [hread]
    rfl
  obtain ⟨-, -, hall⟩ := denotes_negated_bracket .pcre hw hleft
  exact ⟨hw, hleft, hread, hread', (hall e e' hread hread').2⟩

end Regex

end RegexDialects
