import RegexDialects.Proofs.DeMorgan
import RegexDialects.Proofs.EmacsPlaces
import RegexDialects.Proofs.Invariant
import RegexDialects.Proofs.PcreFaults

/-!
# What an error says

An error names a position and the text that was read there. For every pattern that is refused this
is a run of characters of the pattern, which starts at the position and is not empty unless the
pattern ends there (`Fault.IsWithin.report`). It never says that a tree could not be built.

Three constructors may refuse what they are given: bounds in the wrong order, a group with the
number zero, the complement of what does not match single characters. The readers ask them for
repetitions and for bracket expressions. References, and complements of classes, they make
themselves (`MadeDirectly`); the constructors would have made the same (`Regex.IsAccepted`).
-/

set_option autoImplicit false

namespace RegexDialects

open Regex

/-! ## Trees that are made directly -/

/-- Whether a constructor that may refuse its argument makes this very tree of it. The constructors
    of all other trees refuse nothing. -/
def Regex.IsAccepted : Regex → Prop
  | .backref n => reference n = .ok (.backref n)
  | .complement e => negate e = .ok (.complement e)
  | _ => True

theorem Regex.IsNormal.isAccepted {e : Regex} (h : e.IsNormal) : e.IsAccepted := by
  cases e with
  | backref n => exact if_neg (Nat.one_le_iff_ne_zero.1 h)
  | complement e => rcases isNegatable_iff.1 h with ⟨s, rfl⟩ | ⟨k, rfl⟩ | ⟨k, rfl⟩ <;> rfl
  | _ => trivial

theorem Regex.Fit.isAccepted {D : Demands} {e : Regex} (h : e.Fit D) : e.IsAccepted :=
  (h.normal e e.mem_nodes_self).isAccepted

namespace Pattern

theorem Member.isAccepted_tree (m : Member) : m.tree.IsAccepted := by
  cases m with
  | item i => trivial
  | except k => exact rfl

/-- The trees that the readers make without asking a constructor: those of escapes, of items of
    bracket expressions, and of named classes. -/
inductive MadeDirectly : Regex → Prop where
  | emacsEscape {groups : Nat} {text rest : List Char} {e : Regex}
      (h : Emacs.escape groups text = .ok (e, rest)) : MadeDirectly e
  | pcreEscape {groups : Nat} {text rest : List Char} {e : Regex}
      (h : Pcre.escape groups text = .ok (.piece e, rest)) : MadeDirectly e
  | item {dialect : Dialect} {whole text rest : List Char} {e : Regex}
      (h : dialect.brackets.atom whole text = .ok (.tree e, rest)) : MadeDirectly e
  | named {dialect : Dialect} {text rest : List Char} {e : Regex}
      (h : readClass? dialect.brackets.negatedNames text = .ok (some (e, rest))) : MadeDirectly e

theorem MadeDirectly.isAccepted {e : Regex} (h : MadeDirectly e) : e.IsAccepted := by
  cases h with
  | emacsEscape h => exact (Emacs.keeps_escape assembly_readDemands.product.leaves h).isAccepted
  | pcreEscape h =>
    have hkeeps := Pcre.keeps_escape assembly_readDemands.toAssembly.leaves h
    exact Regex.Fit.isAccepted hkeeps
  | @item dialect _ _ _ _ h =>
    obtain ⟨m, -, rfl⟩ := dialect.spellsMembers_brackets h
    exact m.isAccepted_tree
  | @named dialect _ _ _ h =>
    have hspells : dialect.brackets.SpellsMembers := dialect.spellsMembers_brackets
    obtain ⟨m, -, rfl⟩ := exists_member_of_readClass? hspells.spells h
    exact m.isAccepted_tree

/-! ## Refusals -/

/-- What an error has to say about a pattern. -/
structure ParseError.IsWellFormed (pattern : List Char) (err : ParseError) : Prop where
  /-- No tree failed to be built. -/
  kind : ∀ cause, err.kind ≠ .construct cause
  position : err.position ≤ pattern.length
  /-- The fragment is what stands at the position. -/
  fragment : ∃ before after, pattern = before ++ (err.fragment ++ after) ∧
    before.length = err.position
  nonempty : err.fragment = [] ↔ err.position = pattern.length

/-- A refusal within a pattern is reported as a run of its characters. -/
theorem Fault.IsWithin.report {pattern : List Char} {f : Fault} (h : f.IsWithin pattern)
    (hkind : ∀ cause, f.kind ≠ .construct cause) : (f.report pattern).IsWellFormed pattern := by
  obtain ⟨before, rfl⟩ := h.start
  have hbefore : before.length = (f.report (before ++ f.start)).position := by
    show before.length = (before ++ f.start).length - f.start.length
    rw [List.length_append, Nat.add_sub_cancel]
  refine ⟨hkind, Nat.sub_le _ _, ⟨before, f.start.drop (max 1 (f.start.length - f.cursor.length)),
    ?_, hbefore⟩, ?_⟩
  · exact congrArg (before ++ ·) (List.take_append_drop _ f.start).symm
  · -- At least one character is taken, if there is one.
    have htake : (f.report (before ++ f.start)).fragment = [] ↔ f.start = [] := by
      show f.start.take (max 1 (f.start.length - f.cursor.length)) = [] ↔ _
      rw [List.take_eq_nil_iff]
      exact or_iff_right (by omega)
    rw [htake, ← hbefore, List.length_append, ← List.length_eq_zero_iff]
    omega

theorem Emacs.Refused.kind_ne_construct {visited : List Emacs.Cursor} {text : List Char} {f : Fault}
    (h : Emacs.Refused visited text f) (cause : ConstructError) : f.kind ≠ .construct cause := by
  intro hkind
  cases h with
  | textual h =>
    have htextual := h.kind
    rw [hkind] at htextual
    cases htextual
  | braces _ h => cases h.symm.trans hkind
  | reference _ _ _ _ _ h => cases h.symm.trans hkind
  | overflow _ _ _ _ _ h => cases h.symm.trans hkind

theorem Pcre.Refused.kind_ne_construct {text : List Char} {f : Fault} (h : Pcre.Refused text f)
    (cause : ConstructError) : f.kind ≠ .construct cause := by
  intro hkind
  cases h with
  | textual h =>
    have htextual := h.kind
    rw [hkind] at htextual
    cases htextual
  | number _ _ _ h _ => cases h.symm.trans hkind

/-- A pattern is refused for something that stands in it, and not because a tree cannot be built. -/
theorem exists_isWithin_of_parse {dialect : Dialect} {pattern : String} {err : ParseError}
    (h : Regex.parse dialect pattern = .error err) :
    ∃ f : Fault, f.IsWithin pattern.toList ∧ (∀ cause, f.kind ≠ .construct cause) ∧
      err = f.report pattern.toList := by
  cases dialect with
  | emacs =>
    obtain ⟨f, hf, herr⟩ := Emacs.exists_refused_of_parse h
    exact ⟨f, hf.isWithin, hf.kind_ne_construct, herr⟩
  | pcre =>
    obtain ⟨f, hf, herr⟩ := Pcre.exists_refused_of_parse h
    exact ⟨f, hf.isWithin, hf.kind_ne_construct, herr⟩

end Pattern

open Pattern

/-- **Every error is well-formed.** Whatever pattern is refused, the error is not that a tree cannot
    be built, its position is one of the pattern, and its fragment is the run of characters there,
    which is empty only at the end of the pattern. And no constructor would refuse what the readers
    make without asking it. -/
theorem isWellFormed_of_parse (dialect : Dialect) (pattern : String) :
    (∀ err, Regex.parse dialect pattern = .error err → err.IsWellFormed pattern.toList) ∧
      ∀ e, MadeDirectly e → e.IsAccepted := by
  refine ⟨?_, fun e he => he.isAccepted⟩
  intro err h
  obtain ⟨f, hf, hkind, rfl⟩ := exists_isWithin_of_parse h
  exact hf.report hkind

/-- The range in `a(b[^\Dc-a]` goes down. The complement in front of it was made by then. -/
theorem isWellFormed_of_parse_range :
    Regex.parse .pcre "a(b[^\\Dc-a]" = .error ⟨.badRange, 7, ['c', '-', 'a']⟩ ∧
      ParseError.IsWellFormed "a(b[^\\Dc-a]".toList ⟨.badRange, 7, ['c', '-', 'a']⟩ ∧
      MadeDirectly (.complement (.set (.of (.posix .digit)))) ∧
      negate (.set (.of (.posix .digit))) = .ok (.complement (.set (.of (.posix .digit)))) := by
  have hparse : Regex.parse .pcre "a(b[^\\Dc-a]" = .error ⟨.badRange, 7, ['c', '-', 'a']⟩ := by
    decide +kernel
  have hmade : MadeDirectly (.complement (.set (.of (.posix .digit)))) :=
    @MadeDirectly.item .pcre [] ['\\', 'D'] [] _ rfl
  exact ⟨hparse, (isWellFormed_of_parse .pcre _).1 _ hparse, hmade,
    (isWellFormed_of_parse .pcre "").2 _ hmade⟩

end RegexDialects
