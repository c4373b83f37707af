import RegexDialects.Proofs.Fragment

/-!
# Looking ahead

The readers of PCRE look past what they take: a number ends at the first character that is no digit,
braces may turn out to be no quantifier, a hyphen in brackets is a range unless the bracket closes
behind it, a backslash and digits may be longer than it seems. None of them looks past a closing
parenthesis. What was read at the end of a text is read the same way with a `)` and anything else
behind it, and what is left has the same behind it.

Most other texts may stand behind as well, if the reader stops before it comes to the end of the
first one (`Separated`). They must not go on with a number or with bounds (`EndsBounds`).

Two readers have to be kept from running on: a comment goes to the end of a line, and a quotation to
its end mark. A text is `Plain` if it has neither.
-/

set_option autoImplicit false

namespace RegexDialects

variable {after : List Char}

/-! ## Digits and blanks -/

/-- What is taken from a text ends with the text, if what stands behind it does not begin alike. -/
theorem takeWhile_append_of_head {p : Char → Bool} (h : ∀ c ∈ after.head?, p c = false)
    (text : List Char) : (text ++ after).takeWhile p = text.takeWhile p := by
  induction text with
  | nil =>
    cases after with
    | nil => rfl
    | cons c after => rw [List.nil_append, List.takeWhile_cons, h c rfl]; rfl
  | cons c text ih => rw [List.cons_append, List.takeWhile_cons, List.takeWhile_cons, ih]

theorem dropWhile_append_of_head {p : Char → Bool} (h : ∀ c ∈ after.head?, p c = false)
    (text : List Char) : (text ++ after).dropWhile p = text.dropWhile p ++ after := by
  induction text with
  | nil =>
    cases after with
    | nil => rfl
    | cons c after => rw [List.nil_append, List.dropWhile_cons, h c rfl]; rfl
  | cons c text ih =>
    rw [List.cons_append, List.dropWhile_cons, List.dropWhile_cons, ih]
    split <;> rfl

/-- A text that does not go on with a number, nor with another one behind a comma. -/
structure EndsNumber (after : List Char) : Prop where
  digit : ∀ c ∈ after.head?, c.isDigit = false
  comma : ∀ c ∈ after.head?, c ≠ ','

/-- A single character settles that a number does not go on. -/
theorem endsNumber_cons {c : Char} (h : (c.isDigit || c == ',') = false) (text : List Char) :
    EndsNumber (c :: text) := by
  simp only [Bool.or_eq_false_iff, beq_eq_false_iff_ne] at h
  refine ⟨?_, ?_⟩ <;> rintro d ⟨⟩
  · exact h.1
  · exact h.2

theorem digitRun_append_of_ends (h : EndsNumber after) (text : List Char) :
    digitRun (text ++ after) = digitRun text :=
  takeWhile_append_of_head h.digit text

theorem afterDigits_append_of_ends (h : EndsNumber after) (text : List Char) :
    afterDigits (text ++ after) = afterDigits text ++ after :=
  dropWhile_append_of_head h.digit text

namespace Pattern

/-! ## Quantifiers -/

namespace Bounds

/-- A number in bounds is the same number with `after` behind. Where the bounds start is of no
    account as long as it fits, here as in all that follows. -/
theorem number?_append_of_ends (hends : EndsNumber after) (start' : List Char)
    {start text rest : List Char} {n : Option Nat} (h : number? start text = .ok (n, rest)) :
    number? start' (text ++ after) = .ok (n, rest ++ after) := by
  unfold number? at h ⊢
  rw [digitRun_append_of_ends hends, afterDigits_append_of_ends hends]
  split at h
  · next hd =>
    cases h
    rw [if_pos hd]
  · next hd =>
    rw [if_neg hd]
    split at h
    · cases h
    · next hle =>
      cases h
      rw [if_neg hle]

theorem comma?_of_ne {text : List Char} (h : ∀ c ∈ text.head?, c ≠ ',') :
    comma? text = (false, text) := by
  unfold comma?
  split
  · exact absurd rfl (h _ rfl)
  · rfl

/-- A comma is not looked for behind the text. -/
theorem comma?_append_of_ends (hends : EndsNumber after) (text : List Char) :
    comma? (text ++ after) = ((comma? text).1, (comma? text).2 ++ after) := by
  cases text with
  | nil => exact comma?_of_ne hends.comma
  | cons c text =>
    by_cases hc : c = ','
    · subst hc
      rfl
    · simp [comma?, hc]

/-- The upper bound is that behind the comma, or the lower one if there is none. -/
theorem upper?_append_of_ends (hends : EndsNumber after) (start' : List Char)
    {start text rest : List Char} {n : Option Nat} (h : upper? start (comma? text) = .ok (n, rest)) :
    upper? start' (comma? (text ++ after)) = .ok (n, rest ++ after) := by
  rw [comma?_append_of_ends hends]
  generalize comma? text = c at h
  obtain ⟨comma, text⟩ := c
  cases comma with
  | true => exact number?_append_of_ends hends start' h
  | false =>
    cases h
    rfl

/-- Whether a closing brace comes next does not depend on what stands behind. -/
def ClosesBefore (closing after : List Char) : Prop :=
  ∀ text, closing.isPrefixOf? (text ++ after) = (closing.isPrefixOf? text).map (· ++ after)

/-- Braces hold the same bounds with `after` behind, or none as before. -/
theorem read?_append_of_ends (hends : EndsNumber after) {closing : List Char}
    (hclosing : ClosesBefore closing after) (start' : List Char) {start text : List Char}
    {r : Option (Bounds × List Char)} (h : read? closing start text = .ok r) :
    read? closing start' (text ++ after) = .ok (r.map fun x => (x.1, x.2 ++ after)) := by
  unfold read? at h ⊢
  split at h
  · cases h
  · next least? mid hl =>
    rw [number?_append_of_ends hends start' hl]
    split at h
    · cases h
    · next most? rest hu =>
      cases h
      have hcomma : (comma? (mid ++ after)).1 = (comma? mid).1 := by
        rw [comma?_append_of_ends hends]
      simp only [upper?_append_of_ends hends start' hu, hcomma, hclosing rest, Option.map_map,
        Function.comp_def]

theorem closesBefore_brace (h : ∀ c ∈ after.head?, c ≠ '}') : ClosesBefore ['}'] after := by
  intro text
  cases text with
  | nil =>
    cases after with
    | nil => rfl
    | cons c after => exact if_neg fun heq => h c rfl (beq_iff_eq.1 heq).symm
  | cons c text =>
    show (if '}' == c then some (text ++ after) else none) =
      (if '}' == c then some text else none).map (· ++ after)
    split <;> rfl

end Bounds

theorem greedyMark_of_ne {text : List Char} (h : ∀ c ∈ text.head?, c ≠ '?') :
    greedyMark text = (true, text) := by
  unfold greedyMark
  split
  · exact absurd rfl (h _ rfl)
  · rfl

/-- A `?` that makes a quantifier lazy comes right behind it. -/
theorem greedyMark_append {text : List Char} (h : text = [] → ∀ c ∈ after.head?, c ≠ '?') :
    greedyMark (text ++ after) = ((greedyMark text).1, (greedyMark text).2 ++ after) := by
  cases text with
  | nil => exact greedyMark_of_ne (h rfl)
  | cons c text =>
    by_cases hc : c = '?'
    · subst hc
      rfl
    · simp [greedyMark, hc]

/-- Quantifiers are read the same way with `after` behind them. `Q` is what that takes of the text
    in front of `after`, and `S` what it takes of the rest that is left of it. -/
structure QuantifierGrammar.ReadsBefore (g : QuantifierGrammar) (after : List Char)
    (Q S : List Char → Prop) : Prop where
  of_suffix : ∀ {text rest}, Q text → rest <:+ text → Q rest
  of_rest : ∀ {text rest}, S rest → rest <:+ text → S text
  skip : ∀ {text}, Q text → S (g.skip text) → g.skip (text ++ after) = g.skip text ++ after
  read : ∀ {text r}, S (r.elim text Prod.snd) → g.read? text = .ok r →
    g.read? (text ++ after) = .ok (r.map fun x => (x.1, x.2 ++ after))

/-- A row of quantifiers ends where its text does, if as many of them are allowed. -/
theorem quantified_append {g : QuantifierGrammar} {Q S : List Char → Prop}
    (hg : g.ReadsBefore after Q S) {budget : Nat} {e e' : Regex} {text rest : List Char}
    (hq : Q text) (hs : S rest) (h : quantified g budget e text = .ok (e', rest)) (budget' : Nat) :
    (budget' < budget ∧ Pcre.IsTooDeep (quantified g budget' e (text ++ after))) ∨
      quantified g budget' e (text ++ after) = .ok (e', rest ++ after) := by
  -- Both rows lose one level with each quantifier, and the second one may start with fewer.
  induction budget generalizing e text budget' with
  | zero =>
    unfold quantified at h
    split at h
    · cases h
    · next hr =>
      cases h
      unfold quantified
      rw [hg.skip hq hs, hg.read (r := none) hs hr]
      exact Or.inr rfl
    · split at h <;> cases h
  | succ budget ih =>
    unfold quantified at h
    split at h
    · cases h
    · next hr =>
      cases h
      unfold quantified
      rw [hg.skip hq hs, hg.read (r := none) hs hr]
      exact Or.inr rfl
    · next q mid hr =>
      split at h
      · cases h
      · next hinv =>
        simp only at h
        split at h
        · cases h
        · next he =>
          have hread := g.read?_suffix hr
          have hsmid : S mid := hg.of_rest hs (quantified_suffix h)
          have hqmid : Q mid := hg.of_suffix hq (hread.trans (g.skip_suffix text))
          unfold quantified
          rw [hg.skip hq (hg.of_rest hsmid hread), hg.read (r := some (q, mid)) hsmid hr]
          simp only [Option.map_some, if_neg hinv]
          -- The quantifier takes a level from the second row as well, if one is left.
          cases budget' with
          | zero => exact Or.inl ⟨Nat.succ_pos budget, _, rfl, rfl⟩
          | succ budget' =>
            simp only [he]
            exact (ih hqmid h budget').imp_left (And.imp_left Nat.succ_lt_succ)

namespace Pcre

/-! ## Where readers stop -/

/-- Nothing is left of a text only where a parenthesis closes behind it, or the pattern ends. -/
def Separated (rest after : List Char) : Prop :=
  rest = [] → ∀ c ∈ after.head?, c = ')'

/-- Where the reader stops in front of the end, it was not at the end before. -/
theorem Separated.of_suffix {text rest : List Char} (h : Separated rest after)
    (hs : rest <:+ text) : Separated text after := by
  rintro rfl
  exact h (List.suffix_nil.1 hs)

theorem separated_cons (c : Char) (rest after : List Char) : Separated (c :: rest) after :=
  nofun

/-- A text that bounds neither go on with nor close in. -/
structure EndsBounds (after : List Char) : Prop extends EndsNumber after where
  brace : ∀ c ∈ after.head?, c ≠ '}'

theorem endsBounds_cons {c : Char} (h : (c.isDigit || c == ',' || c == '}') = false)
    (text : List Char) : EndsBounds (c :: text) := by
  rw [Bool.or_eq_false_iff, beq_eq_false_iff_ne] at h
  refine ⟨endsNumber_cons h.1 text, ?_⟩
  rintro d ⟨⟩
  exact h.2

/-- Nothing goes on behind the end of a pattern. -/
theorem endsBounds_nil : EndsBounds [] where
  digit := by simp
  comma := by simp
  brace := by simp

/-! ## Quantifiers of PCRE -/

/-- A quantifier is lazy, or possessive and refused, for what stands right behind it. -/
theorem marked_append (start' : List Char) {start text : List Char} {least : Nat}
    {most : Option Nat} {r : Option (Quantifier × List Char)} (hs : ∀ x ∈ r, Separated x.2 after)
    (h : marked start least most text = .ok r) :
    marked start' least most (text ++ after) = .ok (r.map fun x => (x.1, x.2 ++ after)) := by
  -- The text behind could make the quantifier lazy or possessive, but the reader has seen more of
  -- the first text, or a parenthesis follows.
  have hsuffix := greedyMark_suffix text
  unfold marked at h
  generalize hm : greedyMark text = m at h hsuffix
  obtain ⟨greedy, rest⟩ := m
  split at h
  · cases h
  · next hplus heq =>
    cases heq
    cases h
    have hrest : Separated rest after := hs _ rfl
    have hmark : text = [] → ∀ c ∈ after.head?, c ≠ '?' := by
      intro htext c hc
      rw [hrest.of_suffix hsuffix htext c hc]
      decide
    unfold marked
    rw [greedyMark_append hmark, hm]
    split
    · next heq =>
      -- A `+` is no parenthesis, so it would have been there before.
      cases rest with
      | nil =>
        cases heq
        cases hrest rfl _ rfl
      | cons c rest =>
        cases heq
        exact (hplus _ rfl rfl).elim
    · next heq =>
      cases heq
      rfl

/-- A character that is neither a brace nor an operator begins no quantifier. -/
theorem readQuantifier?_of_ne {c : Char} (hc : c ≠ '{') (ho : operatorBounds? c = none)
    (text : List Char) : readQuantifier? (c :: text) = .ok none := by
  unfold readQuantifier?
  split
  · next h => exact absurd (List.cons.inj h).1 hc
  · next h =>
    cases h
    rw [ho]
  · rfl

/-- Whether a quantifier follows, and which one, does not depend on the text behind. -/
theorem readQuantifier?_append (hends : EndsBounds after) {text : List Char}
    {r : Option (Quantifier × List Char)} (hs : Separated (r.elim text Prod.snd) after)
    (h : readQuantifier? text = .ok r) :
    readQuantifier? (text ++ after) = .ok (r.map fun x => (x.1, x.2 ++ after)) := by
  have hmark : ∀ x ∈ r, Separated x.2 after := by
    rintro x rfl
    exact hs
  cases text with
  | nil =>
    -- Neither the end of the pattern nor a parenthesis begins a quantifier.
    cases h
    cases after with
    | nil => rfl
    | cons c after =>
      rw [hs rfl c rfl]
      rfl
  | cons c text =>
    rw [List.cons_append]
    by_cases hc : c = '{'
    · subst hc
      have hclosing := Bounds.closesBefore_brace hends.brace
      unfold readQuantifier? at h ⊢
      simp only at h ⊢
      split at h
      · cases h
      · next hb =>
        cases h
        rw [Bounds.read?_append_of_ends hends.toEndsNumber hclosing _ hb]
        rfl
      · next b rest hb =>
        rw [Bounds.read?_append_of_ends hends.toEndsNumber hclosing _ hb]
        simp only [Option.map_some]
        split at h
        · next hn =>
          cases h
          rw [if_pos hn]
          rfl
        · next hn =>
          rw [if_neg hn]
          exact marked_append _ hmark h
    · -- Other quantifiers are one character, and what marks them.
      cases ho : operatorBounds? c with
      | none =>
        rw [readQuantifier?_of_ne hc ho] at h
        cases h
        exact readQuantifier?_of_ne hc ho _
      | some b =>
        rw [readQuantifier?_operator ho] at h ⊢
        exact marked_append _ hmark h

/-! ## Escapes for one character -/

/-- An octal digit is a decimal one. -/
theorem octalDigit?_eq_none {c : Char} (h : c.isDigit = false) : octalDigit? c = none := by
  unfold octalDigit?
  rw [if_neg]
  rintro ⟨h0, h7⟩
  have h0 : '0'.toNat ≤ c.toNat := h0
  have h7 : c.toNat ≤ '7'.toNat := h7
  rw [Char.isDigit_iff_toNat.2 ⟨h0, Nat.le_trans h7 (by decide)⟩] at h
  cases h

theorem octalDigits_append (hdigit : ∀ c ∈ after.head?, c.isDigit = false) (limit : Nat)
    (text : List Char) :
    octalDigits limit (text ++ after) =
      ((octalDigits limit text).1, (octalDigits limit text).2 ++ after) := by
  induction limit generalizing text with
  | zero => rfl
  | succ limit ih =>
    cases text with
    | nil =>
      cases after with
      | nil => rfl
      | cons c after =>
        rw [List.nil_append, octalDigits, octalDigit?_eq_none (hdigit c rfl)]
        rfl
    | cons c text =>
      rw [List.cons_append, octalDigits, octalDigits]
      cases octalDigit? c with
      | none => rfl
      | some d => simp only [ih]

theorem octalChar_append (hdigit : ∀ c ∈ after.head?, c.isDigit = false) (text : List Char) :
    octalChar (text ++ after) = ((octalChar text).1, (octalChar text).2 ++ after) := by
  unfold octalChar
  rw [octalDigits_append hdigit]

/-- Hexadecimal digits go on with letters, so the reader must have stopped before the end. -/
theorem hexDigits_append_after {limit : Nat} {text : List Char}
    (hs : Separated (hexDigits limit text).2 after) :
    hexDigits limit (text ++ after) =
      ((hexDigits limit text).1, (hexDigits limit text).2 ++ after) := by
  induction limit generalizing text with
  | zero => rfl
  | succ limit ih =>
    cases text with
    | nil =>
      -- Only a parenthesis may follow, which is no digit.
      cases after with
      | nil => rfl
      | cons c after =>
      rw [hs rfl c rfl]
      rfl
    | cons c text =>
      rw [hexDigits] at hs
      rw [List.cons_append, hexDigits, hexDigits]
      cases hc : hexDigit? c with
      | none => rfl
      | some d =>
        rw [hc] at hs
        simp only [ih hs]

/-- In braces the digits end at the closing brace, whatever stands behind it. -/
theorem bracedDigits_append_after (start' : List Char) {start text rest : List Char} {ds : List Nat}
    (h : bracedDigits start text = .ok (ds, rest)) :
    bracedDigits start' (text ++ after) = .ok (ds, rest ++ after) := by
  induction text generalizing ds with
  | nil => cases h
  | cons c text ih =>
    rw [List.cons_append]
    unfold bracedDigits at h ⊢
    split at h
    · next hc =>
      cases h
      rw [if_pos hc]
    · next hc =>
      rw [if_neg hc]
      split at h
      · cases h
      · split at h
        · cases h
        · next hb =>
          cases h
          simp only [ih hb]

theorem hexChar_append (start' : List Char) {start text rest : List Char} {c : Char}
    (hs : Separated rest after) (h : hexChar start text = .ok (c, rest)) :
    hexChar start' (text ++ after) = .ok (c, rest ++ after) := by
  cases text with
  | nil =>
    cases h
    cases after with
    | nil => rfl
    | cons d after =>
      rw [hs rfl d rfl]
      rfl
  | cons d text =>
    by_cases hd : d = '{'
    · subst hd
      unfold hexChar at h
      simp only at h
      rw [List.cons_append]
      unfold hexChar
      split at h
      · cases h
      · next hb =>
        split at h
        · next hc =>
          cases h
          simp only [bracedDigits_append_after _ hb, hc]
        · cases h
    · -- Without braces there are two digits at most.
      have hne : ∀ l body, d :: l ≠ '{' :: body := fun _ _ heq => hd (List.cons.inj heq).1
      rw [hexChar_of_ne (hne text)] at h
      cases h
      rw [List.cons_append, hexChar_of_ne (hne _), ← List.cons_append, hexDigits_append_after hs]

/-- A control character is named by the one behind it. -/
theorem controlChar_append (start' : List Char) {start text rest : List Char} {c : Char}
    (h : controlChar start text = .ok (c, rest)) :
    controlChar start' (text ++ after) = .ok (c, rest ++ after) := by
  cases text with
  | nil => cases h
  | cons d text =>
    rw [List.cons_append]
    simp only [controlChar] at h ⊢
    split at h
    · next hlt =>
      cases h
      rw [if_pos hlt]
    · cases h

/-- An escape for one character takes no more of what stands behind. -/
theorem escapedChar_append (start' : List Char) {start text rest : List Char} {c d : Char}
    (hs : Separated rest after) (h : escapedChar start c text = .ok (d, rest)) :
    escapedChar start' c (text ++ after) = .ok (d, rest ++ after) := by
  unfold escapedChar at h ⊢
  split at h
  · cases h
    rfl
  · split at h
    · next hx =>
      simp only [if_pos hx]
      exact hexChar_append _ hs h
    · next hx =>
      simp only [if_neg hx]
      split at h
      · next hctrl =>
        rw [if_pos hctrl]
        exact controlChar_append _ h
      · next hctrl =>
        rw [if_neg hctrl]
        split at h
        · cases h
        · next halnum =>
          cases h
          rw [if_neg halnum]

/-! ## Escapes -/

/-- All three readings of digits end with the run of digits, at the latest. -/
theorem digitEscape_append (hends : EndsNumber after) (groups : Nat) (c : Char)
    (text : List Char) :
    digitEscape groups c (text ++ after) =
      ((digitEscape groups c text).1, (digitEscape groups c text).2 ++ after) := by
  simp only [digitEscape]
  rw [← List.cons_append, digitRun_append_of_ends hends, afterDigits_append_of_ends hends,
    octalChar_append hends.digit]
  split
  · rfl
  · split <;> rfl

/-- Only an escape of digits depends on the groups that were opened. -/
theorem escape_append (hends : EndsNumber after) {groups groups' : Nat} {text rest : List Char}
    {a : Atom}
    (hq : ∀ c ∈ text.head?, c ≠ 'Q')
    (hg : groups' = groups ∨ ∀ c ∈ text.head?, c.isDigit = false) (hs : Separated rest after)
    (h : escape groups text = .ok (a, rest)) :
    escape groups' (text ++ after) = .ok (a, rest ++ after) := by
  cases text with
  | nil => cases h
  | cons c text =>
    rw [List.cons_append]
    simp only [escape] at h ⊢
    split at h
    · next hd =>
      -- Digits are read alike if there are as many groups, and else there are none.
      rcases hg with rfl | hg
      · cases h
        rw [if_pos hd, digitEscape_append hends]
      · exact absurd hd (Bool.eq_false_iff.1 (hg c rfl))
    · next hd =>
      rw [if_neg hd]
      split at h
      · cases h
        rfl
      · split at h
        -- A quotation would go on behind the text.
        · next hc => exact absurd hc (hq c rfl)
        · next hc =>
          simp only [if_neg hc]
          split at h
          · next hE =>
            cases h
            rw [if_pos hE]
          · next hE =>
            rw [if_neg hE]
            split at h
            · cases h
              rfl
            · split at h
              · cases h
              · next he =>
                cases h
                rw [escapedChar_append _ hs he]

/-! ## Openings of groups -/

namespace Opening

/-- A comment ends at its parenthesis. -/
theorem commentEnd_append (whole' : List Char) {whole text rest : List Char} {o : Opening}
    (h : commentEnd whole text = .ok (o, rest)) :
    commentEnd whole' (text ++ after) = .ok (o, rest ++ after) := by
  induction text with
  | nil => cases h
  | cons c text ih =>
    rw [List.cons_append]
    unfold commentEnd at h ⊢
    split at h
    · next hc =>
      cases h
      rw [if_pos hc]
    · next hc =>
      rw [if_neg hc]
      exact ih h

/-- A name ends at its closing character. -/
theorem nameEnd_append (whole' : List Char) {whole text rest : List Char} {close : Char}
    {o : Opening} (h : nameEnd whole close text = .ok (o, rest)) :
    nameEnd whole' close (text ++ after) = .ok (o, rest ++ after) := by
  induction text with
  | nil => cases h
  | cons c text ih =>
    rw [List.cons_append]
    unfold nameEnd at h ⊢
    split at h
    · next hc =>
      cases h
      rw [if_pos hc]
    · next hc =>
      rw [if_neg hc]
      split at h
      · next hname =>
        rw [if_pos hname]
        exact ih h
      · cases h

/-- Flags end at a colon or a parenthesis. -/
theorem flagsEnd_append (whole' : List Char) {whole text rest : List Char} {on : Bool} {f : Flags}
    {o : Opening} (h : flagsEnd whole on f text = .ok (o, rest)) :
    flagsEnd whole' on f (text ++ after) = .ok (o, rest ++ after) := by
  induction text generalizing on f with
  | nil => cases h
  | cons c text ih =>
    rw [List.cons_append]
    unfold flagsEnd at h ⊢
    split at h
    · next hc =>
      rw [if_pos hc]
      exact ih h
    · next hc =>
      rw [if_neg hc]
      split at h
      · next hx =>
        rw [if_pos hx]
        exact ih h
      · next hx =>
        rw [if_neg hx]
        split at h
        · next hs =>
          rw [if_pos hs]
          exact ih h
        · next hs =>
          rw [if_neg hs]
          split at h
          · next hclose =>
            cases h
            rw [if_pos hclose]
          · next hclose =>
            rw [if_neg hclose]
            split at h
            · next hcolon =>
              cases h
              rw [if_pos hcolon]
            · cases h

/-- A name follows `<`, unless what follows is a lookbehind. -/
theorem special_name {whole : List Char} {f : Flags} {c : Char} {l : List Char}
    (h1 : c ≠ '=') (h2 : c ≠ '!') :
    special whole f ('<' :: c :: l) = nameEnd whole '>' (c :: l) := by
  unfold special
  split <;> grind

/-- The characters with which an opening other than flags begins. -/
def isOpening (c : Char) : Bool :=
  ['#', ':', '<', '\x27', 'P', 'R'].contains c

/-- All other openings are flags, or refused. -/
theorem special_flags {whole : List Char} {f : Flags} {c : Char} {l : List Char}
    (h : isOpening c = false) :
    special whole f (c :: l) =
      if c.isAlpha ∨ c = '-' then flagsEnd whole true f (c :: l)
      else .error ⟨.unsupportedGroup, whole, c :: l⟩ := by
  unfold special
  split <;> simp_all [isOpening]

/-- Which sort of group opens is settled by its opening. -/
theorem special_append (whole' : List Char) {whole text rest : List Char} {f : Flags}
    {o : Opening} (h : special whole f text = .ok (o, rest)) :
    special whole' f (text ++ after) = .ok (o, rest ++ after) := by
  cases text with
  | nil => cases h
  | cons c text =>
    cases ho : isOpening c with
    | false =>
      rw [special_flags ho] at h
      rw [List.cons_append, special_flags ho]
      split at h
      · next hc =>
        rw [if_pos hc]
        exact flagsEnd_append whole' h
      · cases h
    | true =>
      -- The characters of `isOpening`, in order. Behind `<` and `P` the next character decides.
      simp only [isOpening, List.contains_eq_mem, List.mem_cons, List.not_mem_nil, or_false,
        decide_eq_true_eq] at ho
      rcases ho with rfl | rfl | rfl | rfl | rfl | rfl
      · exact commentEnd_append whole' h
      · cases h
        rfl
      · cases text with
        | nil => cases h
        | cons d text =>
          -- Lookbehind is refused, and anything else is a name.
          by_cases h1 : d = '='
          · subst h1
            cases h
          · by_cases h2 : d = '!'
            · subst h2
              cases h
            · rw [special_name h1 h2] at h
              rw [List.cons_append, List.cons_append, special_name h1 h2]
              exact nameEnd_append whole' h
      · exact nameEnd_append whole' h
      · cases text with
        | nil => cases h
        | cons d text =>
          by_cases hd : d = '<'
          · subst hd
            exact nameEnd_append whole' h
          · have herror : special whole f ('P' :: d :: text) =
                .error ⟨.unsupportedGroup, whole, 'P' :: d :: text⟩ := by
              unfold special
              split <;> grind
            cases herror.symm.trans h
      · cases h

/-- Only an empty text would have to wait for what comes behind it. -/
theorem read_append (whole' : List Char) {whole text rest : List Char} {f : Flags} {o : Opening}
    (hs : Separated text after) (h : read whole f text = .ok (o, rest)) :
    read whole' f (text ++ after) = .ok (o, rest ++ after) := by
  cases text with
  | nil =>
    -- A parenthesis right behind the opening one is not taken for a sort.
    cases h
    apply read_capture
    intro c hc
    rw [hs rfl c hc]
    decide
  | cons c text =>
    by_cases hstar : c = '*'
    · -- Verbs are refused.
      subst hstar
      cases h
    · by_cases hq : c = '?'
      · subst hq
        exact special_append whole' h
      · have hhead : ∀ l : List Char, ∀ x ∈ (c :: l).head?, x ≠ '*' ∧ x ≠ '?' := by
          intro l x hx
          cases hx
          exact ⟨hstar, hq⟩
        rw [read_capture (hhead _)] at h
        cases h
        exact read_capture (hhead _) whole' f

end Opening

/-! ## Ignored text, and rows of quantifiers -/

/-- A text without comments and quotations, which would run on. -/
structure Plain (text : List Char) : Prop where
  comment : '#' ∉ text
  quotation : ¬ ['\\', 'Q'] <:+: text

theorem Plain.of_suffix {rest text : List Char} (h : Plain text) (hs : rest <:+ text) :
    Plain rest where
  comment := fun hc => h.comment (hs.mem hc)
  quotation := fun hq => h.quotation (hq.trans hs.isInfix)

/-- As much is ignored as before. A comment would go on behind the text, but there is none. -/
theorem skip_append {text : List Char} (h : Plain text) {flags : Flags}
    (hs : Separated (skip flags text) after) :
    skip flags (text ++ after) = skip flags text ++ after := by
  -- Outside of a comment blanks are dropped one by one, up to the first other character.
  have hdrop : ∀ {text : List Char}, '#' ∉ text → Separated (dropIgnored false text) after →
      dropIgnored false (text ++ after) = dropIgnored false text ++ after := by
    intro text hc hs
    induction text with
    | nil =>
      cases after with
      | nil => rfl
      | cons c after =>
      rw [hs rfl c rfl]
      rfl
    | cons c text ih =>
      obtain ⟨hne, hc⟩ := List.ne_and_not_mem_of_not_mem_cons hc
      rw [dropIgnored] at hs
      rw [List.cons_append, dropIgnored, dropIgnored]
      simp only [Bool.false_eq_true, if_false, if_neg hne.symm] at hs ⊢
      split
      · next hb =>
        rw [if_pos hb] at hs
        exact ih hc hs
      · rfl
  unfold skip at hs ⊢
  split
  · next hx =>
    rw [if_pos hx] at hs
    exact hdrop h.comment hs
  · rfl

/-- The quantifiers of PCRE may have any text behind that does not go on with bounds. -/
theorem readsBefore_quantifiers (hends : EndsBounds after) (flags : Flags) :
    (quantifiers flags).ReadsBefore after Plain (Separated · after) where
  of_suffix := Plain.of_suffix
  of_rest := Separated.of_suffix
  skip := fun hq hs => skip_append hq hs
  read := readQuantifier?_append hends

end Pcre

end Pattern

end RegexDialects
