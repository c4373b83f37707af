import RegexDialects.Proofs.EmacsPlaces

/-!
# The highest group number

While an Emacs pattern is read, the reader keeps the highest group number so far. A plain group gets
the next number, a group with a number of its own raises the highest number to that, and other
groups leave it as it is. So the number never falls from one place to the next, and a reference that
could be taken once can be taken at every later place.

Numbers have 32 bits. A group may have the largest of them for its own, and a plain group behind it
has no number left: reading breaks off there (`counter_overflows`). This does not happen, and every
number fits, if and only if no plain group begins where the largest number has been reached
(`HasRoom`).
-/

set_option autoImplicit false

namespace RegexDialects.Pattern.Emacs

open Regex

/-! ## One step -/

/-- The number of a group that opens, when `highest` is the highest number so far. -/
def GroupKind.number? (highest : Nat) : GroupKind → Option Nat
  | implicit => some (highest + 1)
  | numbered n => some n
  | shy => none

variable {c c' : Cursor} {kind : GroupKind}

/-- The number of a group counts, or the highest number so far if that is larger. -/
theorem Opens.highest_eq (h : Opens kind c c') :
    c'.groups.highest = max c.groups.highest ((kind.number? c.groups.highest).getD 0) := by
  obtain ⟨text, -, hopen⟩ := h
  have hnext := (openGroup_eq_ok_iff.1 hopen).2
  cases kind with
  | implicit =>
    simp only [Numbering.next?, Option.ite_none_left_eq_some] at hnext
    rw [← Option.some.inj hnext.2]
    show c.groups.highest + 1 = max c.groups.highest (c.groups.highest + 1)
    omega
  | numbered n =>
    rw [← Option.some.inj hnext]
    rfl
  | shy =>
    rw [← Option.some.inj hnext]
    exact (Nat.max_eq_left (Nat.zero_le _)).symm

/-- The highest number does not fall from one place to the next. -/
theorem Step.highest_le (h : Step c c') : c.groups.highest ≤ c'.groups.highest := by
  cases h with
  | opens kind h =>
    rw [h.highest_eq]
    exact Nat.le_max_left _ _
  | goesOn _ _ hg => exact hg ▸ Nat.le_refl _

theorem Opens.beginsPlain (h : Opens .implicit c c') : BeginsPlain c := by
  obtain ⟨text, hr, hopen⟩ := h
  exact ⟨text, _, hr, (openGroup_eq_ok_iff.1 hopen).1⟩

theorem GroupKind.number_le_of_read {whole text rest : List Char} {n : Nat}
    (h : read whole text = .ok (.numbered n, rest)) : n ≤ maxNumber := by
  simp only [read] at h
  split at h
  · cases h
  · split at h
    · split at h
      · next hn =>
        cases h
        exact hn.2
      · cases h
    · cases h
  · cases h

/-- A number is not too large behind a step either, if there was one left for a plain group. -/
theorem Step.highest_le_maxNumber (h : Step c c') (hc : c.groups.highest ≤ maxNumber)
    (hroom : BeginsPlain c → c.groups.highest < maxNumber) :
    c'.groups.highest ≤ maxNumber := by
  cases h with
  | opens kind h =>
    rw [h.highest_eq]
    refine Nat.max_le.2 ⟨hc, ?_⟩
    cases kind with
    | implicit => exact hroom h.beginsPlain
    | numbered n =>
      obtain ⟨text, -, hopen⟩ := h
      exact GroupKind.number_le_of_read (openGroup_eq_ok_iff.1 hopen).1
    | shy => exact Nat.zero_le _
  | goesOn _ _ hg => exact hg ▸ hc

/-! ## All steps -/

/-- The highest number does not fall from one place to any later one. -/
theorem pairwise_highest_le {visited : List Cursor} (h : visited.IsChain Step) :
    visited.Pairwise fun c c' => c.groups.highest ≤ c'.groups.highest := by
  have htrans : Trans (fun c c' : Cursor => c.groups.highest ≤ c'.groups.highest)
      (fun c c' : Cursor => c.groups.highest ≤ c'.groups.highest)
      fun c c' : Cursor => c.groups.highest ≤ c'.groups.highest := ⟨Nat.le_trans⟩
  exact (h.imp fun _ _ => Step.highest_le).pairwise

/-- Behind a place of a pattern the highest number is not below what it is there. -/
theorem highest_le_of_later {pattern : List Char} {before after : List Cursor}
    (heq : places pattern = before ++ c :: c' :: after) :
    ∀ p ∈ c' :: after, c'.groups.highest ≤ p.groups.highest := by
  have hpairwise := pairwise_highest_le (traces_places pattern).chain
  rw [heq, List.pairwise_append, List.pairwise_cons, List.pairwise_cons] at hpairwise
  obtain ⟨-, ⟨-, hafter, -⟩, -⟩ := hpairwise
  intro p hp
  rcases List.mem_cons.1 hp with rfl | hp
  · exact Nat.le_refl _
  · exact hafter p hp

/-- No number is too large if there is one left wherever a plain group opens. -/
theorem highest_le_maxNumber {visited : List Cursor} (h : visited.IsChain Step)
    (hhead : ∀ c ∈ visited.head?, c.groups.highest ≤ maxNumber)
    (hroom : ∀ before c c' after, visited = before ++ c :: c' :: after → BeginsPlain c →
      c.groups.highest < maxNumber) :
    ∀ p ∈ visited, p.groups.highest ≤ maxNumber := by
  induction visited with
  | nil => exact fun p hp => absurd hp List.not_mem_nil
  | cons c visited ih =>
    have hc := hhead c rfl
    intro p hp
    rcases List.mem_cons.1 hp with rfl | hp
    · exact hc
    · obtain ⟨hstep, hchain⟩ := List.isChain_cons.1 h
      refine ih hchain ?_ ?_ p hp
      · intro c' hc'
        obtain ⟨after, rfl⟩ : ∃ after, visited = c' :: after :=
          ⟨_, List.eq_cons_of_mem_head? hc'⟩
        exact (hstep c' hc').highest_le_maxNumber hc (hroom [] c c' after rfl)
      · intro before d d' after heq
        exact hroom (c :: before) d d' after (heq ▸ rfl)

/-! ## Running out of numbers -/

/-- Whether there is a number left wherever a plain group begins, unless the pattern is refused for
    its nesting there. -/
def HasRoom (pattern : String) : Prop :=
  ∀ before p after, places pattern.toList = before ++ p :: after → BeginsPlain p →
    p.groups.highest < maxNumber ∨
      after = [] ∧ ∃ err, Regex.parse .emacs pattern = .error err ∧ err.kind = .tooDeep

theorem parse_of_read_error {pattern : List Char} {f : Fault}
    (h : (expression maxDepth).read ⟨pattern, 0⟩ = .error f) :
    parse pattern = .error (f.report pattern) := by
  simp only [parse, h]

theorem BeginsPlain.not_noGroup (h : BeginsPlain c) : ¬ NoGroup c := by
  obtain ⟨text, -, hr, -⟩ := h
  exact fun hn => hn text hr

/-- A plain group opens, unless there is no number left for it. -/
theorem BeginsPlain.kind_of_error (h : BeginsPlain c) {text : List Char} {f : Fault}
    (hr : c.rest = '\\' :: '(' :: text)
    (hf : openGroup c.rest ⟨text, c.groups⟩ = .error f) : f.kind = .overflow := by
  obtain ⟨text', rest, hr', hread⟩ := h
  cases hr.symm.trans hr'
  rcases openGroup_eq_error hf with hread' | ⟨rest', -, -, rfl⟩
  · cases hread.symm.trans hread'
  · rfl

/-- Where a pattern is refused because there is no number left, a plain group begins. -/
theorem exists_full_of_parse {pattern : List Char} {err : ParseError}
    (h : parse pattern = .error err) (hkind : err.kind = .overflow) :
    ∃ p ∈ places pattern, p.rest = pattern.drop err.position ∧ BeginsPlain p ∧
      p.groups.IsFull := by
  obtain ⟨f, hf, rfl⟩ := exists_refused_of_parse h
  have hdrop := Fault.drop_position_report hf.start_suffix
  have hkind : f.kind = .overflow := hkind
  cases hf with
  | textual hf =>
    have htextual := hf.kind
    rw [hkind] at htextual
    cases htextual
  | braces _ hbraces =>
    rw [hkind] at hbraces
    cases hbraces
  | reference _ _ _ _ _ hreference =>
    rw [hkind] at hreference
    cases hreference
  | overflow hp hbegins hfull _ hstart _ =>
    exact ⟨_, hp, (hdrop.trans hstart).symm, hbegins, hfull⟩

/-- With room for all groups no number is too large. -/
theorem HasRoom.highest_le {pattern : String} (h : HasRoom pattern) :
    ∀ p ∈ places pattern.toList, p.groups.highest ≤ maxNumber := by
  have ht := traces_places pattern.toList
  refine highest_le_maxNumber ht.chain ?_ ?_
  · intro c hc
    cases ht.head.symm.trans hc
    exact Nat.zero_le _
  · intro before c c' after heq hbegins
    rcases h before c (c' :: after) heq hbegins with hlt | ⟨hnil, -⟩
    · exact hlt
    · cases hnil

theorem HasRoom.kind_ne_overflow {pattern : String} (h : HasRoom pattern) {err : ParseError}
    (herr : Regex.parse .emacs pattern = .error err) : err.kind ≠ .overflow := by
  intro hkind
  obtain ⟨p, hp, -, hbegins, -, hfull⟩ := exists_full_of_parse herr hkind
  obtain ⟨before, after, heq⟩ := List.append_of_mem hp
  rcases h before p after heq hbegins with hlt | ⟨-, err', herr', hdeep⟩
  · exact Nat.not_le.2 hlt hfull
  · cases herr.symm.trans herr'
    cases hkind.symm.trans hdeep

/-- If all numbers fit and there is always one left, then there is room. -/
theorem hasRoom_of_highest_le {pattern : String}
    (hle : ∀ p ∈ places pattern.toList, p.groups.highest ≤ maxNumber)
    (hne : ∀ err, Regex.parse .emacs pattern = .error err → err.kind ≠ .overflow) :
    HasRoom pattern := by
  intro before p after heq hbegins
  have ht := traces_places pattern.toList
  cases after with
  | nil =>
    have hlast : p ∈ (places pattern.toList).getLast? := by
      rw [heq]
      exact List.getLast?_concat
    obtain ⟨f, hf, hdeep | ⟨text, hr, hopen⟩⟩ := ht.blocked p hlast hbegins.not_noGroup
    · exact Or.inr ⟨rfl, _, parse_of_read_error hf, hdeep⟩
    · exact absurd (hbegins.kind_of_error hr hopen) (hne _ (parse_of_read_error hf))
  | cons p' after =>
    -- The group opens, and what comes next has its number.
    have hchain := ht.chain
    rw [heq, List.isChain_append] at hchain
    obtain ⟨text, rest, hr, hread⟩ := hbegins
    have hle' := hle p' (heq ▸ List.mem_append_right _ (List.mem_cons_of_mem _ List.mem_cons_self))
    cases (List.isChain_cons_cons.1 hchain.2.1).1 with
    | goesOn hn _ _ => exact absurd hr (hn text)
    | opens kind hopens =>
      have hnumber := hopens.highest_eq
      obtain ⟨text', hr', hopen⟩ := hopens
      cases hr.symm.trans hr'
      cases hread.symm.trans (openGroup_eq_ok_iff.1 hopen).1
      have hnext : p'.groups.highest = max p.groups.highest (p.groups.highest + 1) := hnumber
      exact Or.inl (by omega)

/-! ## References -/

/-- A reference is taken where the highest number is not below it. -/
theorem escape_reference {groups k : Nat} (h1 : 1 ≤ k) (h9 : k ≤ 9) (hk : k ≤ groups)
    (text : List Char) : escape groups (k.digitChar :: text) = .ok (.backref k, text) := by
  have hall : ∀ n ≤ 9, 1 ≤ n → escapedPrimitive? n.digitChar = none ∧ n.digitChar ≠ '_' ∧
      ¬ (n.digitChar = 's' ∨ n.digitChar = 'S') ∧ ¬ (n.digitChar = 'c' ∨ n.digitChar = 'C') ∧
      n.digitChar ≠ '{' ∧ ('1' ≤ n.digitChar ∧ n.digitChar ≤ '9') ∧
      n.digitChar.toNat - '0'.toNat = n := by decide
  obtain ⟨hprimitive, hedge, hsyntax, hcategory, hbrace, hdigit, hvalue⟩ := hall k h9 h1
  simp only [escape, hprimitive, if_neg hedge, if_neg hsyntax, if_neg hcategory, if_neg hbrace,
    if_pos hdigit, hvalue, if_neg (Nat.not_lt.2 hk)]

/-- A pattern is refused for a reference only at a place where the highest number is below it. -/
theorem exists_place_of_parse {pattern : List Char} {err : ParseError}
    (h : parse pattern = .error err) (hkind : err.kind = .undefinedBackref) :
    ∃ p ∈ places pattern, p.rest = pattern.drop err.position ∧
      ∃ d text, p.rest = '\\' :: d :: text ∧ p.groups.highest < d.toNat - '0'.toNat := by
  obtain ⟨f, hf, rfl⟩ := exists_refused_of_parse h
  have hdrop := Fault.drop_position_report hf.start_suffix
  have hkind : f.kind = .undefinedBackref := hkind
  cases hf with
  | textual hf =>
    have htextual := hf.kind
    rw [hkind] at htextual
    cases htextual
  | braces _ hbraces =>
    rw [hkind] at hbraces
    cases hbraces
  | reference hp hrest hlt _ hstart _ =>
    exact ⟨_, hp, (hdrop.trans hstart).symm, _, _, hrest, hlt⟩
  | overflow _ _ _ _ _ hoverflow =>
    rw [hkind] at hoverflow
    cases hoverflow

/-- **The highest group number never falls**, and is not too large to be held if and only if no
    plain group begins where the largest number has been reached. Every group raises it to its own
    number at least, it is never below that later, and every reference up to that number is taken at
    every later place. Reading breaks off only at a plain group behind one that had the largest
    number, and a reference is refused only at a place where the highest number is below it. -/
theorem counter_never_falls_iff (pattern : String) :
    (∀ before c c' after kind, places pattern.toList = before ++ c :: c' :: after →
      Opens kind c c' →
        c'.groups.highest = max c.groups.highest ((kind.number? c.groups.highest).getD 0) ∧
        ∀ p ∈ c' :: after, c'.groups.highest ≤ p.groups.highest ∧
          ∀ n ∈ kind.number? c.groups.highest, ∀ k, 1 ≤ k → k ≤ 9 → k ≤ n → ∀ text,
            escape p.groups.highest (k.digitChar :: text) = .ok (.backref k, text)) ∧
    (HasRoom pattern ↔
      (∀ p ∈ places pattern.toList, p.groups.highest ≤ maxNumber) ∧
        ∀ err, Regex.parse .emacs pattern = .error err → err.kind ≠ .overflow) ∧
    (∀ err, Regex.parse .emacs pattern = .error err → err.kind = .overflow →
      ∃ p ∈ places pattern.toList, p.rest = pattern.toList.drop err.position ∧ BeginsPlain p ∧
        p.groups.IsFull) ∧
    ∀ err, Regex.parse .emacs pattern = .error err → err.kind = .undefinedBackref →
      ∃ p ∈ places pattern.toList, p.rest = pattern.toList.drop err.position ∧
        ∃ d text, p.rest = '\\' :: d :: text ∧ p.groups.highest < d.toNat - '0'.toNat := by
  refine ⟨?_, ⟨?_, ?_⟩, ?_, ?_⟩
  · intro before c c' after kind heq hopens
    have hnumber := hopens.highest_eq
    refine ⟨hnumber, ?_⟩
    intro p hp
    have hlater := highest_le_of_later heq p hp
    refine ⟨hlater, ?_⟩
    intro n hn k h1 h9 hk text
    refine escape_reference h1 h9 ?_ text
    rw [hnumber, Option.mem_def.1 hn, Option.getD_some] at hlater
    omega
  · intro hroom
    exact ⟨hroom.highest_le, fun err => hroom.kind_ne_overflow⟩
  · rintro ⟨hle, hne⟩
    exact hasRoom_of_highest_le hle hne
  · intro err h hkind
    exact exists_full_of_parse h hkind
  · intro err h hkind
    exact exists_place_of_parse h hkind

/-- Behind a group with the number nine `\8` is taken, though there is no other group. All numbers
    fit, so there is room. -/
theorem counter_never_falls_iff_numbered :
    HasRoom "\\(?9:a\\)\\8" ∧
    places "\\(?9:a\\)\\8".toList = [] ++ ⟨"\\(?9:a\\)\\8".toList, 0⟩ ::
        ⟨"a\\)\\8".toList, ⟨9, true⟩⟩ :: [⟨"\\)\\8".toList, ⟨9, true⟩⟩,
          ⟨"\\8".toList, ⟨9, true⟩⟩, ⟨[], ⟨9, true⟩⟩] ∧
      escape 9 ['8'] = .ok (.backref 8, []) := by
  have hplaces : places "\\(?9:a\\)\\8".toList = [] ++ ⟨"\\(?9:a\\)\\8".toList, 0⟩ ::
      ⟨"a\\)\\8".toList, ⟨9, true⟩⟩ :: [⟨"\\)\\8".toList, ⟨9, true⟩⟩,
        ⟨"\\8".toList, ⟨9, true⟩⟩, ⟨[], ⟨9, true⟩⟩] := by
    decide +kernel
  have hopens : Opens (.numbered 9) ⟨"\\(?9:a\\)\\8".toList, 0⟩
      ⟨"a\\)\\8".toList, ⟨9, true⟩⟩ := ⟨_, rfl, rfl⟩
  have hparse : Regex.parse .emacs "\\(?9:a\\)\\8" =
      .ok (.sequence [.group (.literal ['a']), .backref 8]) :=
    eq_ok_of_toOption (by decide +kernel)
  have hle : ∀ p ∈ places "\\(?9:a\\)\\8".toList, p.groups.highest ≤ maxNumber := by
    rw [hplaces]
    decide
  refine ⟨(counter_never_falls_iff _).2.1.2 ⟨hle, ?_⟩, hplaces, ?_⟩
  · intro err h
    cases hparse.symm.trans h
  · exact (((counter_never_falls_iff "\\(?9:a\\)\\8").1 _ _ _ _ _ hplaces hopens).2
      ⟨"\\8".toList, ⟨9, true⟩⟩ (by decide)).2 9 rfl 8 (by decide) (by decide) (by decide) []

/-- Behind a group with the largest number there is none left for a plain group. -/
theorem counter_overflows :
    ¬ HasRoom "\\(?4294967295:a\\)\\(b\\)\\1" ∧
      Regex.parse .emacs "\\(?4294967295:a\\)\\(b\\)\\1" =
        .error ⟨.overflow, 17, "\\(".toList⟩ := by
  have hparse : Regex.parse .emacs "\\(?4294967295:a\\)\\(b\\)\\1" =
      .error ⟨.overflow, 17, "\\(".toList⟩ := by
    decide +kernel
  exact ⟨fun hroom => hroom.kind_ne_overflow hparse rfl, hparse⟩

end RegexDialects.Pattern.Emacs
