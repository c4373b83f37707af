import Mathlib.Data.List.TakeWhile
import RegexDialects.Proofs.BracketAgreement
import RegexDialects.Proofs.ErrorReports

/-!
# Plain bracket expressions

Where every character stands for itself, a bracket expression has three sorts of members:
characters, ranges and named classes (`Plain`). A `]` is a character in front of all members, and
closes the expression everywhere else; a hyphen makes a range unless the expression closes behind
it; and what looks like the name of a class is one.

Bracket expressions of Emacs are of this sort, and so are those of PCRE in texts without escapes and
negated names. The readers of both dialects accept the same of them (`brackets_agree`): exactly what
the rules say, and they refuse the rest at the same place for the same reason.
-/

set_option autoImplicit false

namespace RegexDialects.Pattern

/-! ## The rules -/

/-- Whether the name of a class, or of a collating element, opens at the front of `text`. -/
inductive OpensName : List Char → Prop where
  | dot (rest : List Char) : OpensName ('[' :: '.' :: rest)
  | equals (rest : List Char) : OpensName ('[' :: '=' :: rest)
  | colon {name : List Char} (h : ∀ c ∈ name, isClassNameChar c = true) (rest : List Char) :
      OpensName ('[' :: ':' :: (name ++ ':' :: ']' :: rest))

/-- Whether a range goes on behind its first character. -/
inductive OpensRange : List Char → Prop where
  | hyphen {hi : Char} (h : hi ≠ ']') (rest : List Char) : OpensRange ('-' :: hi :: rest)

/-- The members `ms` stand at the front of the text, and then a bracket that closes. The last
    argument is the text behind it. -/
inductive Plain : Bool → List Char → List Member → List Char → Prop where
  | close {rest : List Char} : Plain false (']' :: rest) [] rest
  | named {first : Bool} {rest after : List Char} {ms : List Member} (k : PosixClass)
      (h : Plain false rest ms after) :
      Plain first ('[' :: ':' :: (k.name.toList ++ ':' :: ']' :: rest)) (.item (.posix k) :: ms)
        after
  | char {first : Bool} {c : Char} {rest after : List Char} {ms : List Member}
      (hc : ¬ (c = ']' ∧ first = false)) (hname : ¬ OpensName (c :: rest))
      (hrange : ¬ OpensRange rest) (h : Plain false rest ms after) :
      Plain first (c :: rest) (.item (.char c) :: ms) after
  | range {first : Bool} {lo hi : Char} {rest after : List Char} {ms : List Member}
      (hc : ¬ (lo = ']' ∧ first = false)) (hname : ¬ OpensName (lo :: '-' :: hi :: rest))
      (hhi : hi ≠ ']') (hle : lo ≤ hi) (h : Plain false rest ms after) :
      Plain first (lo :: '-' :: hi :: rest) (.item (.range lo hi) :: ms) after

/-- A bracket expression, and the text behind it. The text starts behind the bracket that opens. -/
def IsPlainBracket (text : List Char) (e : Regex) (rest : List Char) : Prop :=
  ∃ ms, Plain true (caret? text).2 ms rest ∧
    bracketTree (caret? text).1 (ms.map Member.tree) = .ok e

/-! ## Names -/

theorem namedClass?_plain_name (k : PosixClass) :
    namedClass? false k.name.toList = some (.set (.of (.posix k))) := by
  cases k <;> decide

theorem exists_name_of_namedClass? {name : List Char} {e : Regex}
    (h : namedClass? false name = some e) : ∃ k : PosixClass,
      k.name.toList = name ∧ e = .set (.of (.posix k)) := by
  unfold namedClass? at h
  split at h
  · simp at h
  · obtain ⟨k, hk, rfl⟩ := Option.map_eq_some_iff.1 h
    have hname := List.find?_some hk
    exact ⟨k, by rw [eq_of_beq hname, String.toList_ofList], rfl⟩

/-- A name and what closes it are split off in front of the first character that no name has. -/
theorem span_name {name : List Char} (h : ∀ c ∈ name, isClassNameChar c = true)
    (rest : List Char) :
    (name ++ ':' :: rest).takeWhile isClassNameChar = name ∧
      (name ++ ':' :: rest).dropWhile isClassNameChar = ':' :: rest := by
  have hcolon : ¬ isClassNameChar ':' = true := by decide
  refine ⟨?_, ?_⟩
  · rw [List.takeWhile_append_of_pos h, List.takeWhile_cons_of_neg hcolon, List.append_nil]
  · rw [List.dropWhile_append_of_pos h, List.dropWhile_cons_of_neg hcolon]

theorem readClass?_plain_name (k : PosixClass) (rest : List Char) :
    readClass? false ('[' :: ':' :: (k.name.toList ++ ':' :: ']' :: rest)) =
      .ok (some (.set (.of (.posix k)), rest)) := by
  obtain ⟨htake, hdrop⟩ := span_name (Pcre.isClassNameChar_name k) (']' :: rest)
  simp only [readClass?, hdrop, htake, namedClass?_plain_name]

theorem exists_name_of_readClass? {text rest : List Char} {e : Regex}
    (h : readClass? false text = .ok (some (e, rest))) : ∃ k : PosixClass,
      text = '[' :: ':' :: (k.name.toList ++ ':' :: ']' :: rest) ∧ e = .set (.of (.posix k)) := by
  unfold readClass? at h
  split at h
  · cases h
  · cases h
  · next body =>
    split at h
    · next hdrop =>
      split at h
      · next hname =>
        cases h
        obtain ⟨k, hk, rfl⟩ := exists_name_of_namedClass? hname
        refine ⟨k, ?_, rfl⟩
        rw [hk, ← hdrop, List.takeWhile_append_dropWhile]
      · cases h
    · cases h
  · cases h

/-- There is no name exactly where none opens. -/
theorem readClass?_eq_none_iff {negatable : Bool} {text : List Char} :
    readClass? negatable text = .ok none ↔ ¬ OpensName text := by
  constructor
  · rintro h (rest | rest | ⟨hname, rest⟩)
    · cases h
    · cases h
    · obtain ⟨-, hdrop⟩ := span_name hname (']' :: rest)
      simp only [readClass?, hdrop] at h
      split at h <;> cases h
  · intro h
    unfold readClass?
    split
    · exact absurd (.dot _) h
    · exact absurd (.equals _) h
    · next body =>
      split
      · next rest hdrop =>
        have hname : ∀ c ∈ body.takeWhile isClassNameChar, isClassNameChar c = true :=
          fun _ => List.mem_takeWhile_imp
        have hopens := OpensName.colon hname rest
        rw [← hdrop, List.takeWhile_append_dropWhile] at hopens
        exact absurd hopens h
      · rfl
    · rfl

/-! ## Items -/

namespace Emacs

variable {whole text rest : List Char}

theorem item_of_not_opensRange (whole : List Char) {c : Char} (h : ¬ OpensRange rest) :
    brackets.item whole (c :: rest) = .ok (.set (.of (.char c)), rest) := by
  have hatom : brackets.atom whole (c :: rest) = .ok (.char c, rest) := rfl
  unfold BracketGrammar.item
  simp only [hatom]
  split
  · next d rest' =>
    by_cases hd : d = ']'
    · rw [if_pos hd]
    · exact absurd (.hyphen hd rest') h
  · rfl

theorem item_of_range (whole : List Char) {lo hi : Char} (h : hi ≠ ']') :
    brackets.item whole (lo :: '-' :: hi :: rest) =
      if lo ≤ hi then .ok (.set (.of (.range lo hi)), rest)
      else .error ⟨.badRange, lo :: '-' :: hi :: rest, rest⟩ :=
  if_neg h

/-- An item is a character or a range. -/
theorem exists_plain_of_item {c : Char} {mid : List Char} {e : Regex}
    (h : brackets.item whole (c :: text) = .ok (e, mid)) :
    (e = .set (.of (.char c)) ∧ mid = text ∧ ¬ OpensRange text) ∨
      ∃ hi, text = '-' :: hi :: mid ∧ hi ≠ ']' ∧ c ≤ hi ∧ e = .set (.of (.range c hi)) := by
  by_cases hrange : OpensRange text
  · obtain ⟨hhi, rest⟩ := hrange
    rw [item_of_range whole hhi] at h
    split at h
    · next hle =>
      cases h
      exact Or.inr ⟨_, rfl, hhi, hle, rfl⟩
    · cases h
  · rw [item_of_not_opensRange whole hrange] at h
    cases h
    exact Or.inl ⟨rfl, rfl, hrange⟩

/-! ## Members -/

theorem member?_of_item {first : Bool} {c : Char} {e : Regex} {mid : List Char}
    (hc : ¬ (c = ']' ∧ first = false)) (hname : ¬ OpensName (c :: text))
    (h : brackets.item whole (c :: text) = .ok (e, mid)) :
    brackets.member? whole first (c :: text) = .ok (some e, mid) := by
  have hclass : readClass? brackets.negatedNames (c :: text) = .ok none :=
    readClass?_eq_none_iff.2 hname
  simp only [BracketGrammar.member?, if_neg hc, hclass, h]

theorem members_cons {first : Bool} {e : Regex} {l : List Regex} {mid : List Char}
    (h : brackets.member? whole first text = .ok (some e, mid))
    (hl : brackets.members whole false mid = .ok (l, rest)) :
    brackets.members whole first text = .ok (e :: l, rest) := by
  rw [BracketGrammar.members_eq, h]
  simp only [hl]

/-- What stands in the text by the rules is read from it. -/
theorem members_of_plain {first : Bool} {ms : List Member} (h : Plain first text ms rest)
    (whole : List Char) :
    brackets.members whole first text = .ok (ms.map Member.tree, rest) := by
  induction h with
  | close =>
    rw [BracketGrammar.members_eq]
    rfl
  | @named first rest _ _ k _ ih =>
    refine members_cons ?_ ih
    have hclass : readClass? brackets.negatedNames _ = _ := readClass?_plain_name k rest
    have hc : ¬ ('[' = ']' ∧ first = false) := fun h => absurd h.1 (by decide)
    simp only [BracketGrammar.member?, if_neg hc, hclass]
    rfl
  | char hc hname hrange _ ih =>
    exact members_cons (member?_of_item hc hname (item_of_not_opensRange whole hrange)) ih
  | range hc hname hhi hle _ ih =>
    refine members_cons (member?_of_item hc hname ?_) ih
    rw [item_of_range whole hhi, if_pos hle]
    rfl

/-- One member is read by one of the rules. -/
theorem exists_plain_of_member? {first : Bool} {e : Regex} {mid : List Char}
    (h : brackets.member? whole first text = .ok (some e, mid)) :
    ∃ m : Member, m.tree = e ∧
      ∀ {ms rest}, Plain false mid ms rest → Plain first text (m :: ms) rest := by
  unfold BracketGrammar.member? at h
  split at h
  · cases h
  · next c text =>
    split at h
    · cases h
    · next hc =>
      split at h
      · cases h
      · next hclass =>
        cases h
        obtain ⟨k, htext, rfl⟩ := exists_name_of_readClass? hclass
        exact ⟨.item (.posix k), rfl, fun hms => htext ▸ .named k hms⟩
      · next hclass =>
        have hname := readClass?_eq_none_iff.1 hclass
        split at h
        · cases h
        · next hitem =>
          cases h
          rcases exists_plain_of_item hitem with ⟨rfl, rfl, hrange⟩ | ⟨hi, rfl, hhi, hle, rfl⟩
          · exact ⟨.item (.char c), rfl, fun hms => .char hc hname hrange hms⟩
          · exact ⟨.item (.range c hi), rfl, fun hms => .range hc hname hhi hle hms⟩

/-- The bracket that closes stands at the front. -/
theorem eq_close_of_member? {first : Bool} {mid : List Char}
    (h : brackets.member? whole first text = .ok (none, mid)) :
    first = false ∧ text = ']' :: mid := by
  unfold BracketGrammar.member? at h
  split at h
  · cases h
  · split at h
    · next hc =>
      cases h
      exact ⟨hc.2, by rw [hc.1]⟩
    · split at h
      · cases h
      · cases h
      · split at h <;> cases h

/-- What is read from the text stands in it by the rules. -/
theorem plain_of_members {first : Bool} {l : List Regex}
    (h : brackets.members whole first text = .ok (l, rest)) :
    ∃ ms, l = ms.map Member.tree ∧ Plain first text ms rest := by
  induction hn : text.length using Nat.strongRecOn generalizing first text l with
  | _ n ih =>
    rw [BracketGrammar.members_eq] at h
    split at h
    · cases h
    · next hm =>
      cases h
      obtain ⟨rfl, rfl⟩ := eq_close_of_member? hm
      exact ⟨[], rfl, .close⟩
    · next hm =>
      have a := brackets.member?_advances hm
      obtain ⟨m, rfl, hplain⟩ := exists_plain_of_member? hm
      split at h
      · cases h
      · next hl =>
        cases h
        obtain ⟨ms, rfl, hms⟩ := ih _ (hn ▸ a.2) hl rfl
        exact ⟨m :: ms, rfl, hplain hms⟩

/-- Emacs accepts exactly the bracket expressions of the rules. -/
theorem read_eq_ok_iff {e : Regex} :
    brackets.read text = .ok (e, rest) ↔ IsPlainBracket text e rest := by
  constructor
  · intro h
    simp only [BracketGrammar.read] at h
    split at h
    · cases h
    · next hl =>
      split at h
      · cases h
      · next ht =>
        cases h
        obtain ⟨ms, rfl, hms⟩ := plain_of_members hl
        exact ⟨ms, hms, ht⟩
  · rintro ⟨ms, hms, ht⟩
    simp only [BracketGrammar.read, members_of_plain hms, ht]

end Emacs

/-! ## Both dialects -/

/-- **The dialects agree on bracket expressions** in a text without escapes and negated names,
    whatever stands in front of it. Either both readers accept what stands there by the rules, as
    the same tree, and stop at the same place; or nothing stands there by the rules, and both refuse
    it with the same fault. Then the error, which is the same in every pattern with this text at its
    end, is at a place of the bracket expression. -/
theorem brackets_agree {text : List Char} (hescape : '\\' ∉ text)
    (hname : ¬ ['[', ':', '^'] <:+: text) :
    (∃ e rest, IsPlainBracket text e rest ∧
        Emacs.brackets.read text = .ok (e, rest) ∧ Pcre.brackets.read text = .ok (e, rest)) ∨
      ∃ f : Fault, (∀ e rest, ¬ IsPlainBracket text e rest) ∧
        Emacs.brackets.read text = .error f ∧ Pcre.brackets.read text = .error f ∧
        ∀ before, (f.report (before ++ '[' :: text)).IsWellFormed (before ++ '[' :: text) ∧
          before.length ≤ (f.report (before ++ '[' :: text)).position := by
  have hagree := SharedBody.read_eq ⟨hescape, hname⟩
  cases h : Emacs.brackets.read text with
  | ok r => exact Or.inl ⟨r.1, r.2, Emacs.read_eq_ok_iff.1 h, rfl, hagree.symm.trans h⟩
  | error f =>
    have hf := BracketGrammar.read_eq_error Emacs.refusesTextually_brackets
      Emacs.spellsMembers_brackets h
    refine Or.inr ⟨f, ?_, rfl, hagree.symm.trans h, ?_⟩
    · intro e rest hplain
      cases h.symm.trans (Emacs.read_eq_ok_iff.2 hplain)
    · intro before
      have hwithin := hf.toIsWithin.of_suffix (List.suffix_append before _)
      refine ⟨hwithin.report ?_, ?_⟩
      · intro cause hkind
        have htextual := hf.kind
        rw [hkind] at htextual
        cases htextual
      · have hle := hf.start.length_le
        show before.length ≤ (before ++ '[' :: text).length - f.start.length
        rw [List.length_append]
        omega

/-- What Emacs makes of `[]a-c-]`, with a bracket in front of all members and a hyphen that makes no
    range, and of a name that is not known, PCRE makes too. -/
theorem brackets_agree_range_and_name :
    Pcre.brackets.read [']', 'a', '-', 'c', '-', ']', 'x'] =
        .ok (.set ⟨[']', '-'], [('a', 'c')], []⟩, ['x']) ∧
      Pcre.brackets.read ['^', '[', ':', 'x', ':', ']', ']'] =
        .error ⟨.unknownPosixClass, ['[', ':', 'x', ':', ']', ']'], [']']⟩ := by
  have hread : Emacs.brackets.read [']', 'a', '-', 'c', '-', ']', 'x'] =
      .ok (.set ⟨[']', '-'], [('a', 'c')], []⟩, ['x']) := by decide +kernel
  have hrefused : Emacs.brackets.read ['^', '[', ':', 'x', ':', ']', ']'] =
      .error ⟨.unknownPosixClass, ['[', ':', 'x', ':', ']', ']'], [']']⟩ := by decide +kernel
  constructor
  · have hescape : '\\' ∉ [']', 'a', '-', 'c', '-', ']', 'x'] := by decide
    rcases brackets_agree hescape (by decide) with
      ⟨e, rest, -, hemacs, hpcre⟩ | ⟨f, -, hemacs, -⟩
    · rw [hpcre, ← hemacs, hread]
    · rw [hread] at hemacs
      cases hemacs
  · have hescape : '\\' ∉ ['^', '[', ':', 'x', ':', ']', ']'] := by decide
    rcases brackets_agree hescape (by decide) with
      ⟨e, rest, -, hemacs, -⟩ | ⟨f, -, hemacs, hpcre, -⟩
    · rw [hrefused] at hemacs
      cases hemacs
    · rw [hpcre, ← hemacs, hrefused]

/-- An escape is a character and one more for Emacs. -/
example : Emacs.brackets.read "\\d]".toList = .ok (.set ⟨['\\', 'd'], [], []⟩, []) ∧
    Pcre.brackets.read "\\d]".toList = .ok (.set (.of (.posix .digit)), []) :=
  ⟨by decide +kernel, by decide +kernel⟩

end RegexDialects.Pattern
