import RegexDialects.Proofs.LookAhead
import RegexDialects.Proofs.SharedEmacs

/-!
# Looking ahead in Emacs patterns

What the reader of Emacs patterns does depends on what comes next in more places than that of PCRE:
`$` is an assertion only at the end of a branch, and a backslash may belong to bounds, to a bar or
to a closing parenthesis. The end of a group is to all of them what the end of the pattern is. What
was read at the end of a text is read the same way with `\)` and anything else behind it.

The backslash in front of the parenthesis could only be taken for something else behind another
backslash, and a text that ends with one is not accepted.
-/

set_option autoImplicit false

namespace RegexDialects.Pattern.Emacs

variable {tail : List Char}

/-! ## Ends of branches and quantifiers -/

theorem endsNumber_backslash (text : List Char) : EndsNumber ('\\' :: text) :=
  endsNumber_cons rfl text

/-- Behind a backslash only a bar or a parenthesis ends a branch. -/
theorem branchEnds_backslash (c : Char) (text : List Char) :
    branchEnds ('\\' :: c :: text) = (c == '|' || c == ')') := by
  by_cases hbar : c = '|'
  · subst hbar
    rfl
  · by_cases hparen : c = ')'
    · subst hparen
      rfl
    · unfold branchEnds
      split
      · next heq => cases heq
      · next heq => exact absurd (List.cons.inj (List.cons.inj heq).2).1 hbar
      · next heq => exact absurd (List.cons.inj (List.cons.inj heq).2).1 hparen
      · simp [hbar, hparen]

/-- A branch ends at the end of a group where it ended before. -/
theorem branchEnds_close (text tail : List Char) :
    branchEnds (text ++ '\\' :: ')' :: tail) = branchEnds text := by
  match text with
  | [] => rfl
  -- A single backslash at the end would make a pair with the one in front of the parenthesis.
  | [c] =>
    by_cases hc : c = '\\'
    · subst hc
      rfl
    · rw [List.singleton_append, branchEnds_of_ne hc, branchEnds_of_ne hc]
  | c :: d :: text =>
    by_cases hc : c = '\\'
    · subst hc
      rw [List.cons_append, List.cons_append, branchEnds_backslash, branchEnds_backslash]
    · rw [List.cons_append, branchEnds_of_ne hc, branchEnds_of_ne hc]

/-- Bounds are not closed by a parenthesis, nor by a backslash of which the brace is missing. -/
theorem closesBefore_braceEnd : Bounds.ClosesBefore ['\\', '}'] ('\\' :: ')' :: tail) := by
  intro text
  match text with
  | [] => rfl
  | [c] =>
    show (if '\\' == c then none else none) = (if '\\' == c then none else none).map _
    split <;> rfl
  | c :: d :: text =>
    show (if '\\' == c then if '}' == d then some (text ++ '\\' :: ')' :: tail) else none else none) =
      (if '\\' == c then if '}' == d then some text else none else none).map
        (· ++ '\\' :: ')' :: tail)
    split
    · split <;> rfl
    · rfl

/-- Neither an operator nor a brace begins a quantifier here. -/
theorem readQuantifier?_none {c : Char} {text : List Char} (ho : operatorBounds? c = none)
    (hb : c = '\\' → ∀ d ∈ text.head?, d ≠ '{') : readQuantifier? (c :: text) = .ok none := by
  unfold readQuantifier?
  split
  · next heq =>
    cases heq
    exact absurd rfl (hb rfl _ rfl)
  · next heq =>
    cases heq
    rw [ho]
  · rfl

/-- Whether a quantifier follows, and which one, does not depend on the end of a group behind. -/
theorem readQuantifier?_close {text : List Char} {r : Option (Quantifier × List Char)}
    (h : readQuantifier? text = .ok r) :
    readQuantifier? (text ++ '\\' :: ')' :: tail) =
      .ok (r.map fun x => (x.1, x.2 ++ '\\' :: ')' :: tail)) := by
  -- Three of the cases below are the same: no quantifier begins here, in neither text.
  have hnone : ∀ {c : Char} {text : List Char}, operatorBounds? c = none →
      (c = '\\' → ∀ d ∈ text.head?, d ≠ '{') →
      (c = '\\' → ∀ d ∈ (text ++ '\\' :: ')' :: tail).head?, d ≠ '{') →
      readQuantifier? (c :: text) = .ok r →
      readQuantifier? (c :: text ++ '\\' :: ')' :: tail) =
        .ok (r.map fun x => (x.1, x.2 ++ '\\' :: ')' :: tail)) := by
    intro c text ho hb hb' h
    cases (readQuantifier?_none ho hb).symm.trans h
    exact readQuantifier?_none ho hb'
  match text with
  | [] =>
    cases h
    rfl
  | c :: text =>
    cases ho : operatorBounds? c with
    | some b =>
      rw [Shared.readQuantifier?_operator ho] at h
      cases h
      have hmark : ∀ c ∈ ('\\' :: ')' :: tail).head?, c ≠ '?' := by
        rintro c ⟨⟩
        decide
      rw [List.cons_append, Shared.readQuantifier?_operator ho, greedyMark_append fun _ => hmark]
      rfl
    | none =>
      by_cases hc : c = '\\'
      · subst hc
        match text with
        | [] => exact hnone ho (fun _ => nofun) (fun _ d hd => by cases hd; decide) h
        | d :: body =>
          by_cases hd : d = '{'
          · subst hd
            unfold readQuantifier? at h ⊢
            simp only [List.cons_append] at h ⊢
            split at h
            · cases h
            · cases h
            · next hread =>
              cases h
              rw [Bounds.read?_append_of_ends (endsNumber_backslash _) closesBefore_braceEnd _
                hread]
              rfl
          · refine hnone ho ?_ ?_ h
            · rintro - x ⟨⟩
              exact hd
            · rintro - x ⟨⟩
              exact hd
      · exact hnone ho (fun heq => absurd heq hc) (fun heq => absurd heq hc) h

/-- So the end of a group may stand behind any row of quantifiers. -/
theorem readsBefore_quantifiers :
    quantifiers.ReadsBefore ('\\' :: ')' :: tail) (fun _ => True) (fun _ => True) where
  of_suffix := fun _ _ => trivial
  of_rest := fun _ _ => trivial
  skip := fun _ _ => rfl
  read := fun _ => readQuantifier?_close

/-- A row of quantifiers ends at the end of a group, if it is not too long. -/
theorem quantified_close {budget : Nat} {e e' : Regex} {text rest : List Char}
    (h : quantified quantifiers budget e text = .ok (e', rest)) (budget' : Nat) :
    Pcre.IsTooDeep (quantified quantifiers budget' e (text ++ '\\' :: ')' :: tail)) ∨
      quantified quantifiers budget' e (text ++ '\\' :: ')' :: tail) =
        .ok (e', rest ++ '\\' :: ')' :: tail) :=
  (quantified_append readsBefore_quantifiers trivial trivial h budget').imp_left And.right

/-! ## Escapes -/

theorem symbolEdge_append (whole' : List Char) {whole text rest : List Char} {e : Regex}
    (h : symbolEdge whole text = .ok (e, rest)) :
    symbolEdge whole' (text ++ tail) = .ok (e, rest ++ tail) := by
  unfold symbolEdge at h
  split at h
  · cases h
    rfl
  · cases h
    rfl
  · cases h

/-- The code of a syntax class is one character. -/
theorem syntaxCode_append (whole' : List Char) {whole text rest : List Char} {negated : Bool}
    {e : Regex} (h : syntaxCode whole negated text = .ok (e, rest)) :
    syntaxCode whole' negated (text ++ tail) = .ok (e, rest ++ tail) := by
  cases text with
  | nil => cases h
  | cons c text =>
    rw [List.cons_append]
    unfold syntaxCode at h ⊢
    simp only at h ⊢
    split at h
    · cases h
      rfl
    · cases h

/-- A category is one character, too. -/
theorem categoryCode_append (whole' : List Char) {whole text rest : List Char} {negated : Bool}
    {e : Regex} (h : categoryCode whole negated text = .ok (e, rest)) :
    categoryCode whole' negated (text ++ tail) = .ok (e, rest ++ tail) := by
  cases text with
  | nil => cases h
  | cons c text =>
    rw [List.cons_append]
    unfold categoryCode at h ⊢
    simp only at h ⊢
    split at h
    · cases h
      rfl
    · cases h

/-- An escape is read the same way whatever stands behind it. Only a reference depends on the groups
    that were opened. -/
theorem escape_append {groups groups' : Nat} {text rest : List Char} {e : Regex}
    (hg : groups' = groups ∨ ∀ c ∈ text.head?, ¬ ('1' ≤ c ∧ c ≤ '9'))
    (h : escape groups text = .ok (e, rest)) :
    escape groups' (text ++ tail) = .ok (e, rest ++ tail) := by
  cases text with
  | nil => cases h
  | cons c text =>
    rw [List.cons_append]
    simp only [escape] at h ⊢
    split at h
    · cases h
      rfl
    · split at h
      · next hc =>
        rw [if_pos hc]
        exact symbolEdge_append _ h
      · next hc =>
        rw [if_neg hc]
        split at h
        · next hs =>
          rw [if_pos hs]
          exact syntaxCode_append _ h
        · next hs =>
          rw [if_neg hs]
          split at h
          · next hcat =>
            rw [if_pos hcat]
            exact categoryCode_append _ h
          · next hcat =>
            rw [if_neg hcat]
            split at h
            · cases h
            · next hbrace =>
              rw [if_neg hbrace]
              split at h
              · next hd =>
                rcases hg with rfl | hg
                · rw [if_pos hd]
                  split at h
                  · cases h
                  · next hle =>
                    cases h
                    rw [if_neg hle]
                · exact absurd hd (hg c rfl)
              · next hd =>
                cases h
                rw [if_neg hd]

/-! ## Sorts of groups -/

namespace GroupKind

/-- Behind a `?` stands a colon, with a number before it or not. -/
theorem read_mark_eq_ok_iff {whole text rest : List Char} {k : GroupKind} :
    read whole ('?' :: text) = .ok (k, rest) ↔
      text = ':' :: rest ∧ k = .shy ∨
        afterDigits text = ':' :: rest ∧
          (0 < decimalValue (digitRun text) ∧ decimalValue (digitRun text) ≤ maxNumber) ∧
          k = .numbered (decimalValue (digitRun text)) := by
  unfold read
  split
  · next shy heq =>
    cases heq
    have hzero : ¬ 0 < decimalValue (digitRun (':' :: shy)) := Nat.lt_irrefl 0
    simp [hzero, and_comm, eq_comm]
  · next text' hne heq =>
    cases heq
    have hcolon : ¬ (text = ':' :: rest ∧ k = .shy) := fun h => hne rest h.1
    rw [or_iff_right hcolon]
    dsimp only
    split
    · next heq =>
      rw [heq]
      split
      · next hn => simp [hn, and_comm, eq_comm]
      · next hn => simp [hn]
    · next hno =>
      simp only [reduceCtorEq, false_iff]
      exact fun h => hno rest h.1
  · next hno => exact (hno text rfl).elim

/-- The end of a group is not taken for a sort. -/
theorem head_close_ne {text : List Char} (h : ∀ c ∈ text.head?, c ≠ '?') :
    ∀ c ∈ (text ++ '\\' :: ')' :: tail).head?, c ≠ '?' := by
  cases text with
  | nil =>
    rintro c ⟨⟩
    decide
  | cons c text => exact h

/-- Which sort of group opens is settled before a group ends. -/
theorem read_close (whole' : List Char) {whole text rest : List Char} {k : GroupKind}
    (h : read whole text = .ok (k, rest)) :
    read whole' (text ++ '\\' :: ')' :: tail) = .ok (k, rest ++ '\\' :: ')' :: tail) := by
  by_cases hmark : ∃ l, text = '?' :: l
  · obtain ⟨l, rfl⟩ := hmark
    rw [List.cons_append]
    refine read_mark_eq_ok_iff.2 ((read_mark_eq_ok_iff.1 h).imp ?_ ?_)
    · rintro ⟨rfl, rfl⟩
      exact ⟨rfl, rfl⟩
    · rw [digitRun_append_of_ends (endsNumber_backslash _),
        afterDigits_append_of_ends (endsNumber_backslash _)]
      exact And.imp_left fun hrest => by rw [hrest, List.cons_append]
  · have hhead : ∀ c ∈ text.head?, c ≠ '?' := by
      rintro c hc rfl
      exact hmark ⟨_, List.eq_cons_of_mem_head? hc⟩
    rw [read_implicit hhead] at h
    cases h
    exact read_implicit (head_close_ne hhead) whole'

end GroupKind

end RegexDialects.Pattern.Emacs
