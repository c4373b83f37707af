import RegexDialects.Proofs.Fragment
import RegexDialects.Proofs.PcreFaults

/-!
# Braces that are text

In PCRE an opening brace is text if it begins no bounds, `{n}`, `{n,}`, `{n,m}` or `{,m}`
(`StartsBounds`). The loop over the quantifiers of a piece then ends in front of the brace, whatever
the piece is and however many quantifiers it took, and the branch goes on with the brace as a piece
of its own (`quantified_of_fit`, `steps_of_brace`).

That is so if and only if the numbers behind the brace fit (`NumbersFit`). One that does not is
refused, and it is what every refusal of braces is about (`not_fit_of_parse`).
-/

set_option autoImplicit false

namespace RegexDialects.Pattern.Pcre

open Regex

variable {text body rest : List Char} {flags : Flags}

/-! ## One brace -/

/-- Whether `text` starts with bounds: `{n}`, `{n,}`, `{n,m}` or `{,m}`. -/
def StartsBounds (text : List Char) : Prop :=
  ∃ inner rest, IsInner inner ∧ inner ≠ [] ∧ inner ≠ [','] ∧ text = '{' :: (inner ++ '}' :: rest)

theorem not_startsBounds_of_open (h : '}' ∉ body) : ¬ StartsBounds ('{' :: body) := by
  rintro ⟨inner, rest, -, -, -, heq⟩
  rw [(List.cons.inj heq).2] at h
  exact h (List.mem_append_right _ List.mem_cons_self)

theorem readQuantifier?_of_fit (hb : ¬ StartsBounds ('{' :: body)) (hfit : NumbersFit body) :
    readQuantifier? ('{' :: body) = .ok none := by
  obtain ⟨b, hread, hnone⟩ := Bounds.read?_of_fit ['}'] ('{' :: body) hfit
  have henclosed : Bounds.enclosed? ['{'] ['}'] ('{' :: body) = _ :=
    (Bounds.enclosed?_append ['{'] ['}'] body).trans hread
  rw [readQuantifier?_brace, henclosed]
  cases hclose : ['}'].isPrefixOf? (splitInner body).2 with
  | none => rfl
  | some rest =>
    -- The braces are closed, so they hold no number.
    have hempty : (splitInner body).1 = [] ∨ (splitInner body).1 = [','] := by
      by_contra hne
      rw [not_or] at hne
      refine hb ⟨_, rest, isInner_splitInner body, hne.1, hne.2, ?_⟩
      have hrest := List.isPrefixOf?_eq_some_iff_append_eq.1 hclose
      rw [← List.singleton_append (l := rest), hrest, splitInner_append]
    obtain ⟨hleast, hmost⟩ := hnone.2 hempty
    simp only [Option.map_some, hleast, hmost, Option.isNone_none, and_self, if_true]

theorem readQuantifier?_of_not_fit (hfit : ¬ NumbersFit body) :
    ∃ cursor, readQuantifier? ('{' :: body) = .error ⟨.badRepetition, '{' :: body, cursor⟩ := by
  have hbehind : ¬ Bounds.FitsBehind ['{'] ('{' :: body) := fun h => hfit (h body rfl)
  obtain ⟨cursor, herror⟩ := Bounds.enclosed?_of_not_fit ['}'] hbehind
  refine ⟨cursor, ?_⟩
  rw [readQuantifier?_brace, herror]

/-! ## Behind a piece -/

section

variable (hskip : skip flags text = '{' :: body)

include hskip

/-- The loop over quantifiers ends in front of a brace that begins no bounds. -/
theorem quantified_of_fit (budget : Nat) (e : Regex) (hb : ¬ StartsBounds ('{' :: body))
    (hfit : NumbersFit body) :
    quantified (quantifiers flags) budget e text = .ok (e, '{' :: body) := by
  have hread : (quantifiers flags).read? ((quantifiers flags).skip text) = .ok none := by
    show readQuantifier? (skip flags text) = .ok none
    rw [hskip]
    exact readQuantifier?_of_fit hb hfit
  unfold quantified
  rw [hread]
  show Except.ok (e, skip flags text) = _
  rw [hskip]

theorem quantified_of_not_fit (budget : Nat) (e : Regex) (hfit : ¬ NumbersFit body) :
    ∃ cursor, quantified (quantifiers flags) budget e text =
      .error ⟨.badRepetition, '{' :: body, cursor⟩ := by
  obtain ⟨cursor, herror⟩ := readQuantifier?_of_not_fit hfit
  have hread : (quantifiers flags).read? ((quantifiers flags).skip text) =
      .error ⟨.badRepetition, '{' :: body, cursor⟩ := by
    show readQuantifier? (skip flags text) = _
    rw [hskip, herror]
  refine ⟨cursor, ?_⟩
  unfold quantified
  rw [hread]

/-- Where a branch goes on with a brace, the brace is a piece of its own. -/
theorem steps_of_brace (deeper : Option Inside) (levels : Nat) (pieces : List Regex)
    (groups : Nat) :
    steps deeper levels ⟨pieces, flags⟩ ⟨text, groups⟩ =
      addPiece levels flags pieces (.literal ['{']) ⟨body, groups⟩ >>= fun r =>
        steps deeper levels r.1 r.2 := by
  have hcur : Cursor.skip flags ⟨text, groups⟩ = ⟨'{' :: body, groups⟩ :=
    congrArg (Cursor.mk · groups) hskip
  rw [steps_eq_bind ⟨pieces, flags⟩ (by rw [hcur]; rfl), hcur]
  rfl

end

/-! ## Patterns -/

/-- A pattern is refused for its braces only if a number behind the brace does not fit. -/
theorem not_fit_of_parse {pattern : List Char} {err : ParseError} (h : parse pattern = .error err)
    (hkind : err.kind = .badRepetition) :
    ∃ body, pattern.drop err.position = '{' :: body ∧ ¬ NumbersFit body := by
  obtain ⟨f, hf, rfl⟩ := exists_refused_of_parse h
  have hdrop := Fault.drop_position_report hf.start_suffix
  cases hf with
  | textual hf =>
    have htextual : f.kind.isTextual = true := hf.kind
    rw [show f.kind = .badRepetition from hkind] at htextual
    cases htextual
  | number _ hstart _ _ hfit => exact ⟨_, hdrop.trans hstart, hfit⟩

/-- What is a value in one case and a refusal in the other tells the cases apart. -/
theorem iff_of_outcomes {α : Type} {p : Prop} {r : Except Fault α} {a : α} {kind : ParseErrorKind}
    {start : List Char} (hok : p → r = .ok a)
    (herror : ¬ p → ∃ cursor, r = .error ⟨kind, start, cursor⟩) :
    (r = .ok a ↔ p) ∧ ((∃ cursor, r = .error ⟨kind, start, cursor⟩) ↔ ¬ p) := by
  by_cases hp : p
  · simp [hok hp, hp]
  · obtain ⟨cursor, herror⟩ := herror hp
    simp [herror, hp]

/-- **Braces that are no quantifier are text if the numbers behind the brace fit,** and are refused
    if they do not. Where a text has not the shape of bounds in braces, none of it is taken. Behind
    a piece, whatever quantifiers it took before, an opening brace that begins no bounds ends the
    loop over quantifiers, and the brace is the next piece. A pattern is not refused for its braces
    otherwise. -/
theorem braces_are_text_iff (text : List Char) :
    (∀ opening closing, ¬ HasBounds opening closing text →
      (Bounds.enclosed? opening closing text = .ok none ↔ Bounds.FitsBehind opening text) ∧
      ((∃ cursor, Bounds.enclosed? opening closing text =
        .error ⟨.badRepetition, text, cursor⟩) ↔ ¬ Bounds.FitsBehind opening text)) ∧
    (∀ flags body, skip flags text = '{' :: body →
      (¬ StartsBounds ('{' :: body) → ∀ budget e,
        (quantified (quantifiers flags) budget e text = .ok (e, '{' :: body) ↔ NumbersFit body) ∧
        ((∃ cursor, quantified (quantifiers flags) budget e text =
          .error ⟨.badRepetition, '{' :: body, cursor⟩) ↔ ¬ NumbersFit body)) ∧
      ∀ deeper levels pieces groups, steps deeper levels ⟨pieces, flags⟩ ⟨text, groups⟩ =
        addPiece levels flags pieces (.literal ['{']) ⟨body, groups⟩ >>= fun r =>
          steps deeper levels r.1 r.2) ∧
    ∀ err, parse text = .error err → err.kind = .badRepetition →
      ∃ body, text.drop err.position = '{' :: body ∧ ¬ NumbersFit body := by
  refine ⟨?_, ?_, ?_⟩
  · intro opening closing h
    exact iff_of_outcomes (Bounds.enclosed?_of_fit h) (Bounds.enclosed?_of_not_fit closing)
  · intro flags body hskip
    refine ⟨?_, steps_of_brace hskip⟩
    intro hb budget e
    exact iff_of_outcomes (quantified_of_fit hskip budget e hb)
      (quantified_of_not_fit hskip budget e)
  · intro err h hkind
    exact not_fit_of_parse h hkind

/-- Braces that are never closed: `a{2` is three pieces of text, and the number in `a{99999999999`
    is too large to be one of them. -/
theorem braces_are_text_iff_open :
    (∀ budget e, quantified (quantifiers noFlags) budget e ['{', '2'] = .ok (e, ['{', '2'])) ∧
      ∃ body, "a\x7b99999999999".toList.drop 1 = '{' :: body ∧ ¬ NumbersFit body := by
  refine ⟨?_, ?_⟩
  · intro budget e
    obtain ⟨-, hbrace, -⟩ := braces_are_text_iff ['{', '2']
    exact ((hbrace noFlags ['2'] rfl).1 (not_startsBounds_of_open (by decide)) budget e).1.2
      (by decide)
  · obtain ⟨-, -, hparse⟩ := braces_are_text_iff "a\x7b99999999999".toList
    exact hparse ⟨.badRepetition, 1, "\x7b99999999999".toList⟩ (by decide +kernel) rfl

/-- Braces are refused that hold no bounds, and are not even closed. -/
theorem badRepetition_of_open_brace :
    ¬ HasBounds ['{'] ['}'] "\x7b99999999999".toList ∧
      Bounds.enclosed? ['{'] ['}'] "\x7b99999999999".toList =
        .error ⟨.badRepetition, "\x7b99999999999".toList, []⟩ ∧
      Regex.parse .pcre "a\x7b99999999999" =
        .error ⟨.badRepetition, 1, "\x7b99999999999".toList⟩ := by
  refine ⟨?_, rfl, by decide +kernel⟩
  rintro ⟨inner, rest, -, heq⟩
  have hclose : '}' ∈ "\x7b99999999999".toList := by
    rw [heq]
    exact List.mem_append_right _ (List.mem_append_right _ List.mem_cons_self)
  exact absurd hclose (by decide)

end RegexDialects.Pattern.Pcre
