import RegexDialects.Proofs.CaptureOrder
import RegexDialects.Proofs.Composition
import RegexDialects.Proofs.GroupLog
import RegexDialects.Proofs.Settling

/-!
# Numbers of groups

A back reference names a group by its number, which the reader of PCRE gives out as it opens groups.
The tree has no numbers: there the group at place `k` in preorder is the one that `k + 1` means. The
two agree as long as no group is lost, and a group is lost in one way only: with what is repeated,
by a quantifier that allows no occurrence (`captures_of_parse`). A pattern that was written for a
tree loses none (`opened_of_render`).
-/

set_option autoImplicit false

namespace RegexDialects.Pattern

namespace Balanced

variable {log : List Event} {n m : Nat} {after : List Regex}

/-- Where nothing is lost, all groups that opened are left, in the same order. -/
theorem map_opened (h : Balanced log n m [] after) (hl : lost log = []) :
    (opened log).map Prod.snd = after := by
  have hb := h.balance
  rw [hl] at hb
  have hlength : after.length = ([] ++ (opened log).map Prod.snd).length := by
    rw [List.nil_append, List.length_map]
    simpa using hb
  exact (h.kept.eq_of_length hlength).symm

theorem opened_eq_zip (h : Balanced log n m [] after) (hl : lost log = []) :
    opened log = (List.range' (n + 1) after.length).zip after := by
  have hsnd := h.map_opened hl
  have hlength : (opened log).length = after.length := by
    rw [← hsnd, List.length_map]
  rw [← hlength, ← h.numbers, ← hsnd, List.zip_map']
  exact (List.map_id _).symm

end Balanced

end RegexDialects.Pattern

namespace RegexDialects.Regex

open Pattern Pattern.Pcre

theorem balanced_of_read {text : List Char} {e : Regex} {groups : Nat}
    (h : (expression maxDepth).read noFlags ⟨text, 0⟩ = .ok (e, ⟨[], groups⟩)) :
    Balanced (patternLog text) 0 groups [] e.captures :=
  isLogged_expression maxDepth h

/-- A written pattern opens the groups of the tree that it was written for, each with its number. -/
theorem opened_of_render {e : Regex} (he : e.Legible) {text : String}
    (h : e.render .pcre = .ok text) :
    (∃ f, Regex.parse .pcre text = .error f ∧ f.kind = .tooDeep) ∨
      opened (patternLog text.toList) =
        (List.range' 1 e.captures.length).zip (e.captures.map readBack) := by
  rcases parse_of_render he.ordered h with hdeep | hparse
  · exact Or.inl hdeep
  · refine Or.inr ?_
    rcases read_of_render he.ordered h with ⟨f, hf, -⟩ | hread
    · obtain ⟨groups, hread⟩ := read_of_parse hparse
      rw [hread] at hf
      cases hf
    · have hbal := balanced_of_read hread
      -- As many groups open as there are in the tree, so none is lost.
      have hlost : lost (patternLog text.toList) = [] := by
        have hcount := hbal.count
        have hb := hbal.balance
        apply List.eq_nil_of_length_eq_zero
        simp only [List.length_nil] at hb
        omega
      rw [hbal.opened_eq_zip hlost, captures_readBack he.writable, List.length_map]

/-- **Numbers of groups survive reading, unless a group is dropped.** The groups that a pattern
    opens are numbered in a row, and those of its tree are among them, in the same order; the others
    stand in what a quantifier drops. No form of output moves a group. So if nothing is lost, the
    groups of the tree are those of the pattern, and a pattern that is written for the tree opens
    their images under the same numbers. -/
theorem captures_of_parse {pattern : String} {e : Regex}
    (h : Regex.parse .pcre pattern = .ok e) :
    ∃ groups, (expression maxDepth).read noFlags ⟨pattern.toList, 0⟩ = .ok (e, ⟨[], groups⟩) ∧
      (opened (patternLog pattern.toList)).map Prod.fst = List.range' 1 groups ∧
      e.captures.Sublist ((opened (patternLog pattern.toList)).map Prod.snd) ∧
      e.captures.length + (lost (patternLog pattern.toList)).length = groups ∧
      (∀ target text, e.render target = .ok text → HoldsGroups target text.toList e.captures) ∧
      (lost (patternLog pattern.toList) = [] →
        (opened (patternLog pattern.toList)).map Prod.snd = e.captures ∧
        ∀ text, e.render .pcre = .ok text →
          (∃ f, Regex.parse .pcre text = .error f ∧ f.kind = .tooDeep) ∨
            opened (patternLog text.toList) =
              (opened (patternLog pattern.toList)).map (Prod.map id readBack)) := by
  obtain ⟨groups, hread⟩ := read_of_parse h
  have hbal := balanced_of_read hread
  have hcount : (opened (patternLog pattern.toList)).length = groups := by
    rw [hbal.count, Nat.zero_add]
  refine ⟨groups, hread, ?_, hbal.kept, ?_, fun target text => holdsGroups_of_render, ?_⟩
  · rw [hbal.numbers, hcount]
  · rw [hbal.balance, hcount, List.length_nil, Nat.zero_add]
  · intro hlost
    refine ⟨hbal.map_opened hlost, ?_⟩
    intro text htext
    have hleg : e.Legible := ⟨fit_of_parse h, writable_of_render htext⟩
    rw [hbal.opened_eq_zip hlost, ← List.zip_map_right]
    exact opened_of_render hleg htext

/-- A repetition that may not occur drops no group here, and a group that stands in another one is
    opened after it. -/
theorem captures_of_parse_nested :
    Regex.parse .pcre "(a(b))x{0}(c)\\2" = .ok (.sequence [.group (.sequence [.literal ['a'],
        .group (.literal ['b'])]), .group (.literal ['c']), .backref 2]) ∧
      lost (patternLog "(a(b))x{0}(c)\\2".toList) = [] ∧
      (opened (patternLog "(a(b))x{0}(c)\\2".toList)).map Prod.fst = [1, 2, 3] ∧
      (opened (patternLog "(a(b))x{0}(c)\\2".toList)).map Prod.snd =
        [.sequence [.literal ['a'], .group (.literal ['b'])], .literal ['b'], .literal ['c']] := by
  have hparse : Regex.parse .pcre "(a(b))x{0}(c)\\2" =
      .ok (.sequence [.group (.sequence [.literal ['a'], .group (.literal ['b'])]),
        .group (.literal ['c']), .backref 2]) :=
    parse_eq_of_toOption (by decide +kernel)
  have hlost : lost (patternLog "(a(b))x{0}(c)\\2".toList) = [] :=
    List.isEmpty_iff.1 (by decide +kernel)
  obtain ⟨groups, -, hnumbers, -, hcount, -, hkept⟩ := captures_of_parse hparse
  obtain ⟨hbodies, -⟩ := hkept hlost
  rw [hlost] at hcount
  refine ⟨hparse, hlost, ?_, hbodies⟩
  rw [hnumbers, ← hcount]
  rfl

/-- The first group is dropped with what is repeated. The second one is then the first of the tree,
    and what is written refers to it. -/
theorem captures_of_parse_dropped :
    ∃ e groups, Regex.parse .pcre "(a){0}(b)\\1" = .ok e ∧
      (expression maxDepth).read noFlags ⟨"(a){0}(b)\\1".toList, 0⟩ = .ok (e, ⟨[], groups⟩) ∧
      groups = 2 ∧ e.captures = [.literal ['b']] ∧ e.render .pcre = .ok "(b)\\1" := by
  have hparse : Regex.parse .pcre "(a){0}(b)\\1" =
      .ok (.sequence [.group (.literal ['b']), .backref 1]) :=
    parse_eq_of_toOption (by decide +kernel)
  obtain ⟨groups, hread⟩ := read_of_parse hparse
  refine ⟨_, groups, hparse, hread, ?_, rfl, rfl⟩
  have hcount : ((expression maxDepth).read noFlags ⟨"(a){0}(b)\\1".toList, 0⟩).toOption.map
      (·.2.groups) = some 2 := by
    decide +kernel
  rw [show (expression maxDepth).read noFlags ⟨"(a){0}(b)\\1".toList, 0⟩ = _ from hread] at hcount
  exact Option.some.inj hcount

end RegexDialects.Regex
