import RegexDialects.Proofs.Outcome
import RegexDialects.Proofs.SharedNotation
import RegexDialects.Proofs.Spelling

/-!
# Quantifiers of the shared notation

Both dialects read a quantifier of the shared notation as what it means (`ReadsQuantities`), so both
apply it in the same way: `ReadsQuantities.quantified_eq`. A number that is too large is refused by
both, and is seen before anything else.
-/

set_option autoImplicit false

namespace RegexDialects.Pattern.Shared

variable {d : Dialect}

/-! ## Bounds -/

theorem digits_none : digits none = [] := rfl

/-- A number is read as its value, if it fits. -/
theorem number?_digits (start : List Char) (n : Option Numeral) {rest : List Char}
    (h : ∀ c ∈ rest.head?, c.isDigit = false) :
    Bounds.number? start (digits n ++ rest) =
      if fits n then .ok (n.map Numeral.value, rest) else .error ⟨.badRepetition, start, rest⟩ := by
  cases n with
  | none =>
    have hrun : digitRun ([] ++ rest) = [] := Pcre.digitRun_append nofun h
    rw [List.nil_append] at hrun
    simp [Bounds.number?, digits, hrun, fits]
  | some n =>
    have hfits : fits (some n) = true ↔ ¬ maxNumber < decimalValue n.digits := by
      rw [Nat.not_lt]
      exact decide_eq_true_iff
    simp only [digits, Pcre.number?_append start n.nonempty n.isDigit_of_mem h, hfits, ite_not]
    rfl

/-- No number goes on with what closes braces. -/
theorem isDigit_head_closing (d : Dialect) (rest : List Char) :
    ∀ c ∈ (mark d ++ '}' :: rest).head?, c.isDigit = false := by
  cases d <;> exact Pcre.not_isDigit_head rfl _

theorem comma?_closing (d : Dialect) (rest : List Char) :
    Bounds.comma? (mark d ++ '}' :: rest) = (false, mark d ++ '}' :: rest) := by
  cases d <;> rfl

theorem isPrefixOf?_closing (d : Dialect) (rest : List Char) :
    (mark d ++ ['}']).isPrefixOf? (mark d ++ '}' :: rest) = some rest := by
  cases d <;> rfl

/-- What stands in braces is read as its bounds, unless a number is too large. -/
theorem read?_interval (d : Dialect) (i : Interval) (start rest : List Char) :
    (Bounds.read? (mark d ++ ['}']) start (i.text ++ (mark d ++ '}' :: rest))).mapError Fault.kind =
      i.bounds?.map fun b => some (b, rest) := by
  have hclosing := isDigit_head_closing d rest
  obtain ⟨least?, comma, most?, hcomma, -⟩ := i
  unfold Bounds.read? Interval.text Interval.bounds?
  cases comma with
  | false =>
    -- Without a comma there is no second number.
    have hmost : most? = none := by
      cases most? with
      | none => rfl
      | some m => cases hcomma rfl
    subst hmost
    have hnum := number?_digits start least? hclosing
    simp only [digits_none, Bool.false_eq_true, if_false, List.append_nil, hnum]
    cases hl : fits least? with
    | false => rfl
    | true =>
      simp only [if_true, comma?_closing, Bounds.upper?, isPrefixOf?_closing]
      rfl
  | true =>
    have hnum := number?_digits start least?
      (Pcre.not_isDigit_head (c := ',') rfl (digits most? ++ (mark d ++ '}' :: rest)))
    have hnum' := number?_digits start most? hclosing
    simp only [if_true, List.append_assoc, List.cons_append, List.nil_append, hnum]
    cases hl : fits least? with
    | false => rfl
    | true =>
      simp only [if_true, Bounds.comma?, Bounds.upper?, hnum']
      cases hm : fits most? with
      | false => rfl
      | true =>
        simp only [if_true, isPrefixOf?_closing]
        rfl

/-- Braces with a comma alone are not written. -/
theorem isSome_of_bounds? {i : Interval} {b : Bounds} (h : i.bounds? = .ok b) :
    b.least?.isSome = true ∨ b.most?.isSome = true := by
  unfold Interval.bounds? at h
  split at h
  · cases h
    simpa using i.some_number
  · cases h

/-! ## Quantifiers -/

/-- Whether a dialect reads the quantifiers of the shared notation as what they mean. -/
structure ReadsQuantities (d : Dialect) (g : QuantifierGrammar) : Prop where
  skip_eq : ∀ text, g.skip text = text
  none : ∀ {text}, NoQuantifier text → g.read? text = .ok none
  some : ∀ (q : Quantity) {text}, NoQuantifier text →
    (g.read? (q.text d ++ text)).mapError Fault.kind = q.quantifier.map fun q => some (q, text)

/-- What stands behind a piece goes on with no quantifier. -/
theorem operatorBounds?_of_quantifies {c : Char} (h : Pcre.quantifies c = false) :
    operatorBounds? c = none := by
  simp only [Pcre.quantifies, Bool.or_eq_false_iff, beq_eq_false_iff_ne] at h
  obtain ⟨⟨⟨hstar, hplus⟩, hmark⟩, -⟩ := h
  simp [operatorBounds?, hstar, hplus, hmark]

theorem readQuantifier?_operator {c : Char} {least : Nat} {most : Option Nat}
    (h : operatorBounds? c = some (least, most)) (text : List Char) :
    Emacs.readQuantifier? (c :: text) =
      .ok (some (⟨least, most, (greedyMark text).1⟩, (greedyMark text).2)) := by
  unfold Emacs.readQuantifier?
  split
  · next heq =>
    rw [(List.cons.inj heq).1] at h
    cases h
  · next heq =>
    cases heq
    rw [h]
  · next heq => cases heq

/-- In Emacs braces have backslashes, and a mark for lazy ones stands behind operators only. -/
theorem readsQuantities_emacs : ReadsQuantities .emacs Emacs.quantifiers where
  skip_eq _ := rfl
  none := by
    intro text h
    show Emacs.readQuantifier? text = _
    unfold Emacs.readQuantifier?
    split
    · exact absurd rfl (h.no_brace _)
    · rw [operatorBounds?_of_quantifies (h.follows _ rfl).1]
    · rfl
  some := by
    intro q text h
    show (Emacs.readQuantifier? (q.text .emacs ++ text)).mapError Fault.kind = _
    cases q with
    | operator c least most hc greedy =>
      rw [Quantity.text, List.cons_append, readQuantifier?_operator hc,
        Pcre.greedyMark_mark greedy h.follows]
      rfl
    | interval i =>
      have htext : (Quantity.interval i).text .emacs ++ text =
          '\\' :: '{' :: (i.text ++ (mark .emacs ++ '}' :: text)) := by
        simp [Quantity.text, mark]
      have hread := fun start => read?_interval .emacs i start text
      rw [htext]
      generalize i.text ++ (mark .emacs ++ '}' :: text) = body at hread ⊢
      -- Of what stands behind the brace it is enough to know its bounds.
      replace hread : (Bounds.read? ['\\', '}'] ('\\' :: '{' :: body) body).mapError Fault.kind =
        i.bounds?.map fun b => some (b, text) := hread _
      unfold Emacs.readQuantifier? Quantity.quantifier
      simp only
      cases hb : i.bounds? with
      | error kind =>
        rw [hb] at hread
        obtain ⟨f, hf, rfl⟩ := mapError_eq_error_iff.1 hread
        rw [hf]
        rfl
      | ok b =>
        rw [hb] at hread
        rw [mapError_eq_ok_iff.1 hread]
        rfl

/-- In PCRE braces are a quantifier only with a number in them, as the shared notation has it. -/
theorem readsQuantities_pcre : ReadsQuantities .pcre (Pcre.quantifiers Pcre.noFlags) where
  skip_eq _ := rfl
  none h := Pcre.readQuantifier?_of_follows h.follows
  some := by
    intro q text h
    show (Pcre.readQuantifier? (q.text .pcre ++ text)).mapError Fault.kind = _
    cases q with
    | operator c least most hc greedy =>
      rw [Quantity.text, List.cons_append, Pcre.readQuantifier?_operator hc,
        Pcre.marked_mark _ _ _ greedy h.follows]
      rfl
    | interval i =>
      have htext : (Quantity.interval i).text .pcre ++ text = '{' :: (i.text ++ '}' :: text) := by
        simp [Quantity.text, mark]
      have hread := fun start => read?_interval .pcre i start text
      rw [htext]
      replace hread : (Bounds.read? ['}'] ('{' :: (i.text ++ '}' :: text))
        (i.text ++ '}' :: text)).mapError Fault.kind = i.bounds?.map fun b => some (b, text) :=
          hread _
      generalize i.text ++ '}' :: text = body at hread ⊢
      unfold Quantity.quantifier
      simp only
      cases hb : i.bounds? with
      | error kind =>
        rw [hb] at hread
        obtain ⟨f, hf, rfl⟩ := mapError_eq_error_iff.1 hread
        unfold Pcre.readQuantifier?
        simp only [hf]
        rfl
      | ok b =>
        rw [hb] at hread
        have hmark := Pcre.marked_mark ('{' :: body) b.least b.most true h.follows
        rw [if_pos rfl, List.nil_append] at hmark
        rw [Pcre.readQuantifier?_braces (mapError_eq_ok_iff.1 hread) (isSome_of_bounds? hb), hmark]
        rfl

/-! ## Rows of one quantifier -/

/-- A quantifier of the shared notation is applied as it means, and nothing more is. -/
theorem ReadsQuantities.quantified_eq {g : QuantifierGrammar} (h : ReadsQuantities d g)
    (budget : Nat) (e : Regex) (q : Option Quantity) {text : List Char} (ht : NoQuantifier text) :
    (quantified g budget e (quantityText d q ++ text)).mapError Fault.kind =
      (quantify budget e q).map fun e => (e, text) := by
  have hend : ∀ budget e, quantified g budget e text = .ok (e, text) := by
    intro budget e
    unfold quantified
    rw [h.skip_eq, h.none ht]
  cases q with
  | none =>
    rw [quantityText, List.nil_append, hend]
    rfl
  | some q =>
    have hread := h.some q ht
    rw [quantityText, quantify]
    unfold quantified
    rw [h.skip_eq]
    cases hq : q.quantifier with
    | error kind =>
      rw [hq] at hread
      obtain ⟨f, hf, rfl⟩ := mapError_eq_error_iff.1 hread
      rw [hf]
      rfl
    | ok b =>
      rw [hq] at hread
      rw [mapError_eq_ok_iff.1 hread]
      simp only [bind, Except.bind]
      -- Bounds in the wrong order come before a level that is missing.
      cases b.isInverted with
      | true => rfl
      | false =>
        cases budget with
        | zero => rfl
        | succ budget =>
          cases Regex.repeated b.least b.most b.greedy e with
          | error cause => rfl
          | ok e' =>
            simp only [Bool.false_eq_true, if_false, hend]
            rfl

end RegexDialects.Pattern.Shared
