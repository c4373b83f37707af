import Mathlib.Data.List.Basic
import Mathlib.Data.List.TakeWhile
import RegexDialects.Pattern.Emacs.Quantifier
import RegexDialects.Pattern.Pcre.Quantifier

/-!
# Braces that are no quantifier

Between the braces of a quantifier stand digits, or digits, a comma and digits (`IsInner`). Where
the text has another shape there are no bounds, and no text is taken (`enclosed?_of_fit`): what
comes next reads it from the brace on.

That holds for runs of digits of any length, with one exception. A number is compared with the
largest one as soon as it has been read, which is before the reader has seen whether the brace is
ever closed. So numbers that do not fit are an error in every text that begins with an opening
brace, even in one that has not the shape of a quantifier (`enclosed?_of_not_fit`). There is no
other error.
-/

set_option autoImplicit false

namespace RegexDialects.Pattern

/-! ## Shapes -/

/-- What stands between the braces of a quantifier. -/
inductive IsInner : List Char → Prop where
  | count {digits : List Char} (h : ∀ c ∈ digits, c.isDigit = true) : IsInner digits
  | interval {digits digits' : List Char} (h : ∀ c ∈ digits, c.isDigit = true)
      (h' : ∀ c ∈ digits', c.isDigit = true) : IsInner (digits ++ ',' :: digits')

/-- Whether `text` starts with bounds in braces, where the braces are `opening` and `closing`. -/
def HasBounds (opening closing text : List Char) : Prop :=
  ∃ inner rest, IsInner inner ∧ text = opening ++ (inner ++ (closing ++ rest))

/-- Whether the numbers behind an opening brace fit: the first one, and the one behind a comma if
    that follows. How the text goes on does not matter. -/
def NumbersFit (body : List Char) : Prop :=
  decimalValue (digitRun body) ≤ maxNumber ∧
    ((Bounds.comma? (afterDigits body)).1 = true →
      decimalValue (digitRun (Bounds.comma? (afterDigits body)).2) ≤ maxNumber)

instance (body : List Char) : Decidable (NumbersFit body) :=
  inferInstanceAs (Decidable (_ ∧ _))

/-- The text behind an opening brace, split where what may stand between braces ends. -/
def splitInner (body : List Char) : List Char × List Char :=
  match Bounds.comma? (afterDigits body) with
  | (true, text) => (digitRun body ++ ',' :: digitRun text, afterDigits text)
  | (false, text) => (digitRun body, text)

theorem isDigit_of_mem_digitRun {text : List Char} : ∀ c ∈ digitRun text, c.isDigit = true :=
  fun _ => List.mem_takeWhile_imp

theorem isInner_splitInner (body : List Char) : IsInner (splitInner body).1 := by
  unfold splitInner
  split
  · exact .interval isDigit_of_mem_digitRun isDigit_of_mem_digitRun
  · exact .count isDigit_of_mem_digitRun

theorem append_of_comma? {text rest : List Char} {comma : Bool}
    (h : Bounds.comma? text = (comma, rest)) : (if comma then [','] else []) ++ rest = text := by
  unfold Bounds.comma? at h
  split at h <;> cases h <;> rfl

theorem splitInner_append (body : List Char) :
    (splitInner body).1 ++ (splitInner body).2 = body := by
  have hbody := digitRun_append_afterDigits body
  unfold splitInner
  split
  · next text heq =>
    rw [← append_of_comma? heq] at hbody
    rw [List.append_assoc, List.cons_append, digitRun_append_afterDigits]
    exact hbody
  · next text heq =>
    rw [← append_of_comma? heq] at hbody
    exact hbody

namespace Bounds

variable {opening closing start text body rest : List Char} {b : Bounds}

/-! ## Numbers -/

theorem number?_of_fits (start : List Char) (h : decimalValue (digitRun text) ≤ maxNumber) :
    ∃ n, number? start text = .ok (n, afterDigits text) ∧ (n = none ↔ digitRun text = []) := by
  unfold number?
  by_cases hrun : digitRun text = []
  · have hafter : afterDigits text = text := by
      have happend := digitRun_append_afterDigits text
      rwa [hrun, List.nil_append] at happend
    rw [hrun, hafter]
    exact ⟨none, rfl, by simp⟩
  · rw [List.isEmpty_eq_false_iff.2 hrun, if_neg (Nat.not_lt.2 h)]
    exact ⟨some _, rfl, by simp [hrun]⟩

theorem number?_of_not_fit (start : List Char) (h : ¬ decimalValue (digitRun text) ≤ maxNumber) :
    number? start text = .error ⟨.badRepetition, start, afterDigits text⟩ := by
  have hrun : digitRun text ≠ [] := by
    intro hrun
    rw [hrun] at h
    exact h (Nat.zero_le _)
  unfold number?
  rw [List.isEmpty_eq_false_iff.2 hrun, if_pos (Nat.not_le.1 h)]
  rfl

/-! ## Bounds -/

/-- If the numbers fit, there are bounds where the closing brace follows what may stand between
    braces. Whether they hold a number can be seen there. -/
theorem read?_of_fit (closing start : List Char) (h : NumbersFit body) :
    ∃ b : Bounds, read? closing start body =
        .ok ((closing.isPrefixOf? (splitInner body).2).map fun rest => (b, rest)) ∧
      (b.least? = none ∧ b.most? = none ↔
        (splitInner body).1 = [] ∨ (splitInner body).1 = [',']) := by
  obtain ⟨hfirst, hsecond⟩ := h
  obtain ⟨least?, hleast, hnone⟩ := number?_of_fits start hfirst
  unfold read? splitInner
  rw [hleast]
  rcases hcomma : comma? (afterDigits body) with ⟨_ | _, text⟩
  · refine ⟨⟨least?, false, none⟩, ?_, ?_⟩
    · simp only [hcomma, upper?]
    · -- A run of digits is no comma.
      have hdigit : digitRun body ≠ [','] := by
        intro heq
        have hc : Char.isDigit ',' = true :=
          isDigit_of_mem_digitRun ',' (heq ▸ List.mem_singleton_self ',')
        cases hc
      simp only [and_true, hnone, hdigit, or_false]
  · rw [hcomma] at hsecond
    obtain ⟨most?, hmost, hnone'⟩ := number?_of_fits start (hsecond rfl)
    refine ⟨⟨least?, true, most?⟩, ?_, ?_⟩
    · simp only [hcomma, upper?, hmost]
    · rw [hnone, hnone']
      cases digitRun body <;> simp

/-- A number that does not fit is an error, whatever follows it. -/
theorem read?_of_not_fit (closing start : List Char) (h : ¬ NumbersFit body) :
    ∃ cursor, read? closing start body = .error ⟨.badRepetition, start, cursor⟩ := by
  unfold NumbersFit at h
  unfold read?
  by_cases hfirst : decimalValue (digitRun body) ≤ maxNumber
  · obtain ⟨least?, hleast, -⟩ := number?_of_fits start hfirst
    rw [hleast]
    rcases hcomma : comma? (afterDigits body) with ⟨_ | _, text⟩
    · rw [hcomma] at h
      exact absurd ⟨hfirst, nofun⟩ h
    · rw [hcomma] at h
      have hsecond : ¬ decimalValue (digitRun text) ≤ maxNumber := by
        intro hsecond
        exact h ⟨hfirst, fun _ => hsecond⟩
      simp only [hcomma, upper?, number?_of_not_fit start hsecond]
      exact ⟨_, rfl⟩
  · rw [number?_of_not_fit start hfirst]
    exact ⟨_, rfl⟩

/-- The only refusal is about a number. -/
theorem read?_eq_error {f : Fault} (h : read? closing start body = .error f) :
    f.kind = .badRepetition ∧ f.start = start ∧ ¬ NumbersFit body := by
  by_cases hfit : NumbersFit body
  · obtain ⟨b, hread, -⟩ := read?_of_fit closing start hfit
    rw [hread] at h
    cases h
  · obtain ⟨cursor, herror⟩ := read?_of_not_fit closing start hfit
    rw [herror] at h
    cases h
    exact ⟨rfl, rfl, hfit⟩

theorem number?_cursor_suffix {f : Fault} (h : number? start text = .error f) :
    f.cursor <:+ text := by
  unfold number? at h
  split at h
  · cases h
  · split at h
    · cases h
      exact afterDigits_suffix text
    · cases h

theorem upper?_cursor_suffix {f : Fault} {c : Bool × List Char} (h : upper? start c = .error f) :
    f.cursor <:+ c.2 := by
  unfold upper? at h
  split at h
  · exact number?_cursor_suffix h
  · cases h

/-- A refusal has read on from the brace. -/
theorem read?_cursor_suffix {f : Fault} (h : read? closing start body = .error f) :
    f.cursor <:+ body := by
  unfold read? at h
  split at h
  · next hl =>
    cases h
    exact number?_cursor_suffix hl
  · next hl =>
    split at h
    · next hu =>
      cases h
      exact (upper?_cursor_suffix hu).trans ((comma?_suffix _).trans (number?_suffix hl))
    · cases h

/-! ## Bounds with their braces -/

/-- Reads bounds with the braces around them, if `text` starts with the opening one. -/
def enclosed? (opening closing text : List Char) : Except Fault (Option (Bounds × List Char)) :=
  match opening.isPrefixOf? text with
  | none => .ok none
  | some body => read? closing text body

theorem enclosed?_append (opening closing body : List Char) :
    enclosed? opening closing (opening ++ body) = read? closing (opening ++ body) body := by
  unfold enclosed?
  rw [List.isPrefixOf?_eq_some_iff_append_eq.2 rfl]

theorem enclosed?_of_ne (closing : List Char) (h : ∀ body, text ≠ opening ++ body) :
    enclosed? opening closing text = .ok none := by
  unfold enclosed?
  split
  · rfl
  · next body heq => exact absurd (List.isPrefixOf?_eq_some_iff_append_eq.1 heq).symm (h body)

/-- Whether the numbers fit, in case `text` starts with the opening brace. -/
def FitsBehind (opening text : List Char) : Prop :=
  ∀ body, text = opening ++ body → NumbersFit body

/-- Braces of another shape are not taken. -/
theorem enclosed?_of_fit (h : ¬ HasBounds opening closing text) (hfit : FitsBehind opening text) :
    enclosed? opening closing text = .ok none := by
  by_cases hopen : ∃ body, text = opening ++ body
  · obtain ⟨body, rfl⟩ := hopen
    obtain ⟨b, hread, -⟩ := read?_of_fit closing (opening ++ body) (hfit body rfl)
    rw [enclosed?_append, hread]
    cases hclose : closing.isPrefixOf? (splitInner body).2 with
    | none => rfl
    | some rest =>
      refine absurd ⟨_, rest, isInner_splitInner body, ?_⟩ h
      rw [List.isPrefixOf?_eq_some_iff_append_eq.1 hclose, splitInner_append]
  · exact enclosed?_of_ne closing fun body heq => hopen ⟨body, heq⟩

/-- Numbers that do not fit are refused, whatever the shape is. -/
theorem enclosed?_of_not_fit (closing : List Char) (hfit : ¬ FitsBehind opening text) :
    ∃ cursor, enclosed? opening closing text = .error ⟨.badRepetition, text, cursor⟩ := by
  unfold FitsBehind at hfit
  push Not at hfit
  obtain ⟨body, rfl, hfit⟩ := hfit
  rw [enclosed?_append]
  exact read?_of_not_fit closing _ hfit

end Bounds

/-! ## The readers of quantifiers -/

/-- What a reader of quantifiers makes of bounds with their braces: PCRE takes braces without a
    number for text, and looks for a mark behind the others. -/
theorem Pcre.readQuantifier?_brace (body : List Char) :
    Pcre.readQuantifier? ('{' :: body) =
      match Bounds.enclosed? ['{'] ['}'] ('{' :: body) with
      | .error f => .error f
      | .ok none => .ok none
      | .ok (some (b, rest)) =>
        if b.least?.isNone ∧ b.most?.isNone then .ok none
        else Pcre.marked ('{' :: body) b.least b.most rest := rfl

/-- Emacs refuses braces that hold no bounds, and has no marks behind braces. -/
theorem Emacs.readQuantifier?_brace (body : List Char) :
    Emacs.readQuantifier? ('\\' :: '{' :: body) =
      match Bounds.enclosed? ['\\', '{'] ['\\', '}'] ('\\' :: '{' :: body) with
      | .error f => .error f
      | .ok none => .error ⟨.badRepetition, '\\' :: '{' :: body, '\\' :: '{' :: body⟩
      | .ok (some (b, rest)) => .ok (some (⟨b.least, b.most, true⟩, rest)) := rfl

end RegexDialects.Pattern
