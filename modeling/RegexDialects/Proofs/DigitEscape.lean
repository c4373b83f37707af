import RegexDialects.Proofs.Invariant
import RegexDialects.Proofs.LookAhead

/-!
# Digits behind a backslash

A run of digits behind a backslash is read in one of three ways. It is a back reference as a whole
if its value is the number of a group that was opened, leading zeros or not. Else its first digit is
a back reference by itself, unless that is a zero, which begins a number of up to three octal
digits. What is left of the run is text like any other: every digit is a piece of its own, and a
quantifier behind the run applies to the last one (`stepsBehind`).

The value of a run is compared as a number, however long the run is: one that does not fit in 32
bits is the number of no group.
-/

set_option autoImplicit false

namespace RegexDialects.Pattern.Pcre

open Regex

/-! ## Octal digits -/

/-- The octal digits that a text starts with, but three of them at most. -/
def octalRun (text : List Char) : List Char :=
  (text.takeWhile fun c => '0' ≤ c ∧ c ≤ '7').take 3

/-- The character whose code is written by octal digits. -/
def ofOctal (digits : List Char) : Char :=
  Char.ofNat (Nat.ofDigitChars 8 digits 0)

theorem octalDigits_eq (limit : Nat) (text : List Char) :
    octalDigits limit text =
      (((text.takeWhile fun c => '0' ≤ c ∧ c ≤ '7').take limit).map (·.toNat - '0'.toNat),
        text.drop ((text.takeWhile fun c => '0' ≤ c ∧ c ≤ '7').take limit).length) := by
  induction limit generalizing text with
  | zero => rfl
  | succ limit ih =>
    cases text with
    | nil => rfl
    | cons c text =>
      rw [octalDigits, octalDigit?, List.takeWhile_cons]
      by_cases hc : '0' ≤ c ∧ c ≤ '7'
      · simp only [if_pos hc, decide_eq_true hc, if_true, ih, List.take_succ_cons, List.map_cons,
          List.length_cons, List.drop_succ_cons]
      · simp only [if_neg hc, decide_eq_false hc, Bool.false_eq_true, if_false, List.take_nil,
          List.map_nil, List.length_nil, List.drop_zero]

theorem ofDigitValues_map (digits : List Char) :
    ofDigitValues 8 (digits.map (·.toNat - '0'.toNat)) = Nat.ofDigitChars 8 digits 0 := by
  unfold ofDigitValues Nat.ofDigitChars
  rw [List.foldl_map]
  simp only [Nat.mul_comm]

theorem octalChar_eq (text : List Char) :
    octalChar text = (ofOctal (octalRun text), text.drop (octalRun text).length) := by
  unfold octalChar
  rw [octalDigits_eq, ofDigitValues_map]
  rfl

/-! ## Digits as text -/

/-- A digit has no meaning of its own: it is neither skipped, nor does it end anything. -/
theorem plain_of_isDigit {c : Char} (h : c.isDigit = true) :
    Form.Pcre.isSpecial c = false ∧ isBlank c = false ∧ c ≠ '#' := by
  have hall : ∀ n ≤ 57, 48 ≤ n → Form.Pcre.isSpecial (Char.ofNat n) = false ∧
      isBlank (Char.ofNat n) = false ∧ Char.ofNat n ≠ '#' := by decide
  obtain ⟨h0, h9⟩ := Char.isDigit_iff_toNat.1 h
  rw [← Char.ofNat_toNat c]
  exact hall c.toNat h9 h0

theorem follows_digit {c : Char} (h : c.isDigit = true) (text : List Char) :
    Follows false (c :: text) := by
  have hall : ∀ n ≤ 57, 48 ≤ n → quantifies (Char.ofNat n) = false := by decide
  obtain ⟨h0, h9⟩ := Char.isDigit_iff_toNat.1 h
  rintro d ⟨⟩
  refine ⟨?_, nofun⟩
  rw [← Char.ofNat_toNat c]
  exact hall c.toNat h9 h0

theorem branchEnds_digit {c : Char} (h : c.isDigit = true) (text : List Char) :
    branchEnds (c :: text) = false := by
  have hspecial := (plain_of_isDigit h).1
  simp only [Form.Pcre.isSpecial, List.contains_eq_mem, List.mem_cons, List.not_mem_nil, or_false,
    decide_eq_false_iff_not, not_or] at hspecial
  simp [branchEnds, hspecial]

variable {deeper : Option Inside} {levels : Nat}

/-- Goes on behind the piece `e` and then `text`, of which every character is a piece: only the last
    piece takes the quantifiers that follow. -/
def stepsBehind (deeper : Option Inside) (levels : Nat) (done : Progress) (e : Regex) :
    List Char → Cursor → Except Fault (Progress × Cursor)
  | [], cur => addPiece levels done.flags done.pieces e cur >>= fun r => steps deeper levels r.1 r.2
  | c :: text, cur =>
    stepsBehind deeper levels { done with pieces := e :: done.pieces } (.literal [c]) text cur

theorem steps_of_digits {text rest : List Char} (hd : ∀ c ∈ text, c.isDigit = true)
    (done : Progress) (e : Regex) (groups : Nat) :
    (addPiece levels done.flags done.pieces e ⟨text ++ rest, groups⟩ >>=
      fun r => steps deeper levels r.1 r.2) =
        stepsBehind deeper levels done e text ⟨rest, groups⟩ := by
  induction text generalizing done e with
  | nil => rfl
  | cons c text ih =>
    have hc := hd c List.mem_cons_self
    obtain ⟨hspecial, hblank, hsharp⟩ := plain_of_isDigit hc
    have hskip := skip_cons done.flags hblank hsharp (text ++ rest)
    -- The piece in front of a digit takes no quantifier.
    have hpiece : addPiece levels done.flags done.pieces e ⟨c :: text ++ rest, groups⟩ =
        .ok (⟨e :: done.pieces, done.flags⟩, ⟨c :: (text ++ rest), groups⟩) :=
      addPiece_of_skip levels done.pieces e groups hskip
        (readQuantifier?_of_follows (follows_digit hc (text ++ rest)))
    have hnext := steps_of_piece levels ⟨e :: done.pieces, done.flags⟩ hskip
      (branchEnds_digit hc _) (atom_plain deeper done.flags groups hspecial (text ++ rest))
    rw [hpiece]
    exact hnext.trans (ih (fun d hd' => hd d (List.mem_cons_of_mem c hd')) _ _)

/-! ## The three readings -/

/-- Behind a backslash, `run` is read as the piece `e`, and what is left of it, `text`, as ordinary
    text. -/
structure ReadsRun (groups : Nat) (run rest : List Char) (e : Regex) (text : List Char) : Prop where
  escape : escape groups (run ++ rest) = .ok (.piece e, text ++ rest)
  steps : ∀ deeper levels done, steps deeper levels done ⟨'\\' :: (run ++ rest), groups⟩ =
    stepsBehind deeper levels done e text ⟨rest, groups⟩

section Run

variable {groups : Nat} {c : Char} {l rest : List Char} {e : Regex} {text : List Char}

theorem readsRun_of_digitEscape (hd : ∀ x ∈ c :: l, x.isDigit = true)
    (ht : text <:+ c :: l) (h : digitEscape groups c (l ++ rest) = (e, text ++ rest)) :
    ReadsRun groups (c :: l) rest e text := by
  have hescape : Pcre.escape groups (c :: l ++ rest) = .ok (.piece e, text ++ rest) := by
    simp only [List.cons_append, Pcre.escape, hd c List.mem_cons_self, if_true, h]
  refine ⟨hescape, ?_⟩
  intro deeper levels done
  rw [steps_of_piece levels done (skip_cons done.flags (by decide) (by decide) _) rfl
    (atom_backslash hescape)]
  exact steps_of_digits (fun d hd' => hd d (ht.mem hd')) done e groups

end Run

/-- **How digits behind a backslash are read**, with `groups` groups opened. A run whose value is
    the number of one of them refers to it, whatever its first digit is. Else a first digit other
    than zero is a reference, and a zero begins an octal number of up to three digits; the digits
    behind are text. -/
theorem readsRun_digits {groups : Nat} (hg : groups ≤ maxNumber) {c : Char} {l rest : List Char}
    (hd : ∀ x ∈ c :: l, x.isDigit = true) (hrest : ∀ x ∈ rest.head?, x.isDigit = false) :
    (0 < decimalValue (c :: l) → decimalValue (c :: l) ≤ groups →
        ReadsRun groups (c :: l) rest (.backref (decimalValue (c :: l))) []) ∧
      (groups < decimalValue (c :: l) → c ≠ '0' →
        ReadsRun groups (c :: l) rest (.backref (c.toNat - '0'.toNat)) l) ∧
      (decimalValue (c :: l) = 0 ∨ groups < decimalValue (c :: l) → c = '0' →
        ReadsRun groups (c :: l) rest (.literal [ofOctal (octalRun (c :: l))])
          ((c :: l).drop (octalRun (c :: l)).length)) := by
  have hvalue : digitRun (c :: (l ++ rest)) = c :: l := digitRun_append hd hrest
  have hafter : afterDigits (c :: (l ++ rest)) = rest := afterDigits_append hd hrest
  have hoctal : octalChar (c :: (l ++ rest)) =
      (ofOctal (octalRun (c :: l)), (c :: l).drop (octalRun (c :: l)).length ++ rest) := by
    rw [← List.cons_append, octalChar_append hrest, octalChar_eq]
  refine ⟨?_, ?_, ?_⟩
  · intro h0 hle
    apply readsRun_of_digitEscape hd List.nil_suffix
    simp only [digitEscape, hvalue, hafter]
    exact if_pos ⟨h0, Nat.le_trans hle hg, hle⟩
  · intro hlt hc
    apply readsRun_of_digitEscape hd (List.suffix_cons c l)
    simp only [digitEscape, hvalue]
    rw [if_neg fun h => Nat.not_le.2 hlt h.2.2, if_neg hc]
  · intro hno hc
    apply readsRun_of_digitEscape hd (List.drop_suffix _ _)
    simp only [digitEscape, hvalue, hoctal]
    rw [if_neg, if_pos hc]
    rintro ⟨h0, -, hle⟩
    omega

/-- After two groups: `\02` refers to the second, `\31` to the third, with the text `1` behind it,
    and `\0101` is a backspace with that text, since three digits of it are octal. -/
theorem readsRun_digits_two_groups :
    ReadsRun 2 ['0', '2'] [] (.backref 2) [] ∧ ReadsRun 2 ['3', '1'] [] (.backref 3) ['1'] ∧
      ReadsRun 2 ['0', '1', '0', '1'] [] (.literal ['\x08']) ['1'] := by
  have hg : 2 ≤ maxNumber := by decide
  have hend : ∀ x ∈ ([] : List Char).head?, x.isDigit = false := by simp
  refine ⟨?_, ?_, ?_⟩
  · exact (readsRun_digits hg (List.all_eq_true.1 rfl) hend).1 (by decide) (by decide)
  · exact (readsRun_digits hg (List.all_eq_true.1 rfl) hend).2.1 (by decide) (by decide)
  · exact (readsRun_digits hg (List.all_eq_true.1 rfl) hend).2.2 (Or.inr (by decide)) rfl

/-- A zero in front does not make a number octal: after a group, `\01` refers to it. -/
theorem escape_leading_zero : escape 1 ['0', '1'] = .ok (.piece (.backref 1), []) ∧
    Regex.parse .pcre "(a)\\01" = .ok (.sequence [.group (.literal ['a']), .backref 1]) ∧
    ofOctal (octalRun ['0', '1']) = '\x01' :=
  ⟨rfl, parse_eq_of_toOption (by decide +kernel), by decide⟩

end RegexDialects.Pattern.Pcre
