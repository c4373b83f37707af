import RegexDialects.Form.Pcre
import RegexDialects.Pattern.Pcre.Quantifier
import RegexDialects.Proofs.Built

/-!
# Quantifiers, written and read

The quantifier that is written for bounds is read as these bounds, with its mark if it is lazy
(`readQuantifier?_quantifier`). For this, what follows must not go on with the quantifier; `Follows`
says which texts may stand behind a piece.
-/

set_option autoImplicit false

namespace RegexDialects.Pattern.Pcre

open Regex

/-! ## What may follow -/

/-- Whether a character begins a quantifier. -/
def quantifies (c : Char) : Bool :=
  c == '*' || c == '+' || c == '?' || c == '{'

/-- Whether `rest` may stand behind a piece, and behind a back reference in case the piece is one.
    -/
def Follows (isRef : Bool) (rest : List Char) : Prop :=
  ∀ c ∈ rest.head?, quantifies c = false ∧ (isRef = true → c.isDigit = false)

theorem Follows.weaken {isRef : Bool} {rest : List Char} (h : Follows isRef rest) :
    Follows false rest := by
  intro c hc
  refine ⟨(h c hc).1, ?_⟩
  intro h
  cases h

/-! ## Numbers -/

theorem isDigit_of_mem_decimal {n : Nat} {c : Char} (h : c ∈ decimal n) : c.isDigit = true :=
  Nat.isDigit_of_mem_toDigits (by decide) (by decide) h

theorem digitRun_append {digits rest : List Char} (hd : ∀ c ∈ digits, c.isDigit = true)
    (h : ∀ c ∈ rest.head?, c.isDigit = false) : digitRun (digits ++ rest) = digits := by
  unfold digitRun
  rw [List.takeWhile_append_of_pos hd]
  cases rest with
  | nil => simp
  | cons c l => simp [h c rfl]

theorem afterDigits_append {digits rest : List Char} (hd : ∀ c ∈ digits, c.isDigit = true)
    (h : ∀ c ∈ rest.head?, c.isDigit = false) : afterDigits (digits ++ rest) = rest := by
  unfold afterDigits
  rw [List.dropWhile_append_of_pos hd]
  cases rest with
  | nil => rfl
  | cons c l => simp [h c rfl]

theorem digitRun_decimal (n : Nat) {rest : List Char} (h : ∀ c ∈ rest.head?, c.isDigit = false) :
    digitRun (decimal n ++ rest) = decimal n :=
  digitRun_append (fun _ => isDigit_of_mem_decimal) h

theorem afterDigits_decimal (n : Nat) {rest : List Char}
    (h : ∀ c ∈ rest.head?, c.isDigit = false) : afterDigits (decimal n ++ rest) = rest :=
  afterDigits_append (fun _ => isDigit_of_mem_decimal) h

/-- A number ends where its digits do. -/
theorem number?_append (start : List Char) {digits rest : List Char} (hn : digits ≠ [])
    (hd : ∀ c ∈ digits, c.isDigit = true) (h : ∀ c ∈ rest.head?, c.isDigit = false) :
    Bounds.number? start (digits ++ rest) =
      if maxNumber < decimalValue digits then .error ⟨.badRepetition, start, rest⟩
      else .ok (some (decimalValue digits), rest) := by
  unfold Bounds.number?
  rw [digitRun_append hd h, afterDigits_append hd h, List.isEmpty_eq_false_iff.2 hn]
  rfl

theorem number?_decimal (start : List Char) {n : Nat} (hn : n ≤ maxNumber) (rest : List Char)
    (h : ∀ c ∈ rest.head?, c.isDigit = false) :
    Bounds.number? start (decimal n ++ rest) = .ok (some n, rest) := by
  have hne : decimal n ≠ [] := Nat.toDigits_ne_nil
  rw [number?_append start hne (fun _ => isDigit_of_mem_decimal) h, decimalValue_decimal,
    if_neg (Nat.not_lt.2 hn)]

theorem not_isDigit_head {c : Char} (h : c.isDigit = false) (rest : List Char) :
    ∀ d ∈ (c :: rest).head?, d.isDigit = false := by
  intro d hd
  cases hd
  exact h

theorem number?_none (start : List Char) {c : Char} (h : c.isDigit = false) (rest : List Char) :
    Bounds.number? start (c :: rest) = .ok (none, c :: rest) := by
  simp [Bounds.number?, digitRun, h]

/-! ## Quantifiers -/

/-- What may follow a piece is no quantifier of it. -/
theorem readQuantifier?_of_follows {isRef : Bool} {rest : List Char} (h : Follows isRef rest) :
    readQuantifier? rest = .ok none := by
  cases rest with
  | nil => rfl
  | cons c l =>
    have hc := (h c rfl).1
    simp only [quantifies, Bool.or_eq_false_iff, beq_eq_false_iff_ne] at hc
    obtain ⟨⟨⟨hstar, hplus⟩, hmark⟩, hbrace⟩ := hc
    unfold readQuantifier?
    split
    · next heq =>
      rw [List.cons.injEq] at heq
      exact absurd heq.1 hbrace
    · next heq =>
      rw [List.cons.injEq] at heq
      simp [operatorBounds?, ← heq.1, hstar, hplus, hmark]
    · rfl

theorem greedyMark_mark (greedy : Bool) {isRef : Bool} {rest : List Char}
    (h : Follows isRef rest) :
    greedyMark ((if greedy then [] else ['?']) ++ rest) = (greedy, rest) := by
  cases greedy with
  | false => rfl
  | true =>
    simp only [if_true, List.nil_append]
    unfold greedyMark
    split
    · cases (h '?' rfl).1
    · rfl

theorem marked_mark (start : List Char) (least : Nat) (most : Option Nat) (greedy : Bool)
    {isRef : Bool} {rest : List Char} (h : Follows isRef rest) :
    marked start least most ((if greedy then [] else ['?']) ++ rest) =
      .ok (some (⟨least, most, greedy⟩, rest)) := by
  unfold marked
  rw [greedyMark_mark greedy h]
  split
  · next heq =>
    -- A `+` in front of what follows would be a quantifier there.
    rw [Prod.mk.injEq] at heq
    rw [heq.2] at h
    cases (h '+' rfl).1
  · next heq =>
    cases heq
    rfl

/-- A quantifier in braces is read as its bounds. -/
theorem readQuantifier?_braces {body : List Char} {b : Bounds} {rest : List Char}
    (hread : Bounds.read? ['}'] ('{' :: body) body = .ok (some (b, rest)))
    (hb : b.least?.isSome = true ∨ b.most?.isSome = true) :
    readQuantifier? ('{' :: body) = marked ('{' :: body) b.least b.most rest := by
  have hn : ¬ (b.least?.isNone = true ∧ b.most?.isNone = true) := by
    rintro ⟨hl, hm⟩
    simp only [Option.isNone_iff_eq_none.1 hl, Option.isNone_iff_eq_none.1 hm, Option.isSome_none,
      Bool.false_eq_true, or_self] at hb
  rw [readQuantifier?, hread]
  simp only [if_neg hn]

/-- An operator is read as its bounds. -/
theorem readQuantifier?_operator {c : Char} {least : Nat} {most : Option Nat}
    (h : operatorBounds? c = some (least, most)) (text : List Char) :
    readQuantifier? (c :: text) = marked (c :: text) least most text := by
  unfold readQuantifier?
  split
  · next heq =>
    rw [(List.cons.inj heq).1] at h
    cases h
  · next heq =>
    cases heq
    rw [h]
  · next heq => cases heq

theorem read?_exact {n : Nat} (hn : n ≤ maxNumber) (start rest : List Char) :
    Bounds.read? ['}'] start (decimal n ++ ['}'] ++ rest) =
      .ok (some (⟨some n, false, none⟩, rest)) := by
  have hnum := number?_decimal start hn ('}' :: rest) (not_isDigit_head rfl rest)
  rw [List.append_assoc, List.singleton_append, Bounds.read?, hnum]
  rfl

theorem read?_atLeast {n : Nat} (hn : n ≤ maxNumber) (start rest : List Char) :
    Bounds.read? ['}'] start (decimal n ++ [',', '}'] ++ rest) =
      .ok (some (⟨some n, true, none⟩, rest)) := by
  have hnum := number?_decimal start hn (',' :: '}' :: rest) (not_isDigit_head rfl _)
  rw [List.append_assoc, List.cons_append, List.singleton_append, Bounds.read?, hnum]
  simp only [Bounds.comma?, Bounds.upper?, number?_none start (c := '}') rfl]
  rfl

theorem read?_between {n m : Nat} (hn : n ≤ maxNumber) (hm : m ≤ maxNumber)
    (start rest : List Char) :
    Bounds.read? ['}'] start (decimal n ++ ',' :: decimal m ++ ['}'] ++ rest) =
      .ok (some (⟨some n, true, some m⟩, rest)) := by
  have hnum := number?_decimal start hn (',' :: (decimal m ++ '}' :: rest)) (not_isDigit_head rfl _)
  have hnum' := number?_decimal start hm ('}' :: rest) (not_isDigit_head rfl rest)
  simp only [List.append_assoc, List.cons_append, List.nil_append]
  rw [Bounds.read?, hnum]
  simp only [Bounds.comma?, Bounds.upper?, hnum']
  rfl

open Form.Pcre in
/-- No quantifier begins with a digit, so it goes on with no number in front of it. -/
theorem isDigit_head_quantifier {least : Nat} {most : Option Nat} {text : List Char} {c : Char}
    (h : c ∈ (quantifier least most ++ text).head?) : c.isDigit = false := by
  unfold quantifier at h
  split at h
  · cases h
    rfl
  · cases h
    rfl
  · cases h
    rfl
  · cases h
    rfl
  · split at h <;> cases h <;> rfl

open Form.Pcre in
/-- What is written for bounds is read as these bounds. -/
theorem readQuantifier?_quantifier {least : Nat} {most : Option Nat} (greedy : Bool)
    (hb : BoundsFit least most) {isRef : Bool} {rest : List Char} (h : Follows isRef rest) :
    readQuantifier? (quantifier least most ++ ((if greedy then [] else ['?']) ++ rest)) =
      .ok (some (⟨least, most, greedy⟩, rest)) := by
  have hmark := fun start => marked_mark start least most greedy h
  -- Only how the mark and what follows are read matters from here on.
  generalize (if greedy then [] else ['?']) ++ rest = text at hmark ⊢
  unfold quantifier
  split
  · exact hmark _
  · exact hmark _
  · exact hmark _
  · exact (readQuantifier?_braces (read?_atLeast hb.1 _ _) (Or.inl rfl)).trans (hmark _)
  · next m _ =>
    split
    · next heq =>
      subst heq
      exact (readQuantifier?_braces (read?_exact hb.1 _ _) (Or.inl rfl)).trans (hmark _)
    · exact (readQuantifier?_braces (read?_between hb.1 (hb.2 m rfl) _ _) (Or.inl rfl)).trans
        (hmark _)

end RegexDialects.Pattern.Pcre
