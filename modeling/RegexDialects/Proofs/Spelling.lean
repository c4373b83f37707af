import RegexDialects.Form.Pcre
import RegexDialects.Pattern.Pcre.Expression

/-!
# Characters, written and read

A character is written as it is, with a backslash in front, or as a hexadecimal number. Each of
these is read back as the character, outside of brackets (`atom_escaped`) and inside
(`spellsChar_bracketEscaped`), whatever follows.

Hexadecimal numbers come first: `HexValue digits n` says that digits are read as `n`, with leading
zeros or without.
-/

set_option autoImplicit false

namespace RegexDialects

/-! ## Hexadecimal numbers -/

/-- Whether `digits` are hexadecimal digits, and those of `n`. -/
def HexValue (digits : List Char) (n : Nat) : Prop :=
  ∃ values, digits.map hexDigit? = values.map some ∧ ofDigitValues 16 values = n

theorem hexDigit?_digitChar : ∀ d < 16, hexDigit? d.digitChar = some d := by
  decide

/-- A brace is no digit, so it is seen where the digits end. -/
theorem ne_brace_of_hexDigit? {c : Char} {d : Nat} (h : hexDigit? c = some d) :
    c ≠ '{' ∧ c ≠ '}' := by
  constructor <;> rintro rfl <;> simp [hexDigit?] at h

theorem ofDigitValues_append_singleton (base : Nat) (values : List Nat) (d : Nat) :
    ofDigitValues base (values ++ [d]) = ofDigitValues base values * base + d := by
  simp [ofDigitValues]

/-- Digits that are replaced by ones of the same value keep the number: in upper case, say. -/
theorem hexValue_map_hex {f : Char → Char} (hf : ∀ d < 16, hexDigit? (f d.digitChar) = some d)
    (n : Nat) : HexValue ((hex n).map f) n := by
  induction n using Nat.strongRecOn with
  | _ n ih =>
    unfold hex at ih ⊢
    rw [Nat.toDigits_eq_if (by decide)]
    split
    · next h => exact ⟨[n], by simp [hf n h], by simp [ofDigitValues]⟩
    · next h =>
      obtain ⟨values, hmap, hval⟩ := ih (n / 16) (by omega)
      refine ⟨values ++ [n % 16], ?_, ?_⟩
      · rw [List.map_append, List.map_append, hmap, List.map_append]
        simp [hf (n % 16) (Nat.mod_lt n (by decide))]
      · rw [ofDigitValues_append_singleton, hval]
        omega

/-- What is written for a number are digits of it. -/
theorem hexValue_hex (n : Nat) : HexValue (hex n) n := by
  have h := hexValue_map_hex (f := id) hexDigit?_digitChar n
  rwa [List.map_id] at h

/-- Zeros in front do not change a number. -/
theorem HexValue.padZeros {digits : List Char} {n : Nat} (h : HexValue digits n) (width : Nat) :
    HexValue (padZeros width digits) n := by
  obtain ⟨values, hmap, rfl⟩ := h
  refine ⟨List.replicate (width - digits.length) 0 ++ values, ?_, ?_⟩
  · have h0 : hexDigit? '0' = some 0 := by decide
    simp only [RegexDialects.padZeros, List.map_append, List.map_replicate, h0, hmap]
  · have hz : ∀ k, (List.replicate k 0).foldl (fun n d => n * 16 + d) 0 = 0 := by
      intro k
      induction k with
      | zero => rfl
      | succ k ih => simpa [List.replicate_succ] using ih
    simp only [ofDigitValues, List.foldl_append, hz]

theorem length_padZeros_hex {n : Nat} (h : n ≤ 0xFF) : (padZeros 2 (hex n)).length = 2 := by
  have hlen : (hex n).length ≤ 2 := (Nat.length_toDigits_le_iff (by decide) (by decide)).2 (by omega)
  simp only [padZeros, List.length_append, List.length_replicate]
  omega

theorem charOfNat?_toNat (c : Char) : charOfNat? c.toNat = some c := by
  have h : c.toNat.isValidChar := c.valid
  unfold charOfNat?
  rw [dif_pos h]
  rfl

namespace Pattern.Pcre

/-- As many digits are read as there are, whatever follows. -/
theorem hexDigits_append {digits : List Char} {values : List Nat}
    (h : digits.map hexDigit? = values.map some) (rest : List Char) :
    hexDigits digits.length (digits ++ rest) = (values, rest) := by
  induction digits generalizing values with
  | nil =>
    rw [List.map_nil, eq_comm, List.map_eq_nil_iff] at h
    rw [h]
    rfl
  | cons c digits ih =>
    cases values with
    | nil => simp at h
    | cons d values =>
      rw [List.map_cons, List.map_cons, List.cons.injEq] at h
      rw [List.length_cons, List.cons_append, hexDigits, h.1, ih h.2]

/-- In braces all digits are read. -/
theorem bracedDigits_append (start : List Char) {digits : List Char} {values : List Nat}
    (h : digits.map hexDigit? = values.map some) (rest : List Char) :
    bracedDigits start (digits ++ '}' :: rest) = .ok (values, rest) := by
  induction digits generalizing values with
  | nil =>
    rw [List.map_nil, eq_comm, List.map_eq_nil_iff] at h
    rw [h]
    rfl
  | cons c digits ih =>
    cases values with
    | nil => simp at h
    | cons d values =>
      rw [List.map_cons, List.map_cons, List.cons.injEq] at h
      rw [List.cons_append, bracedDigits, if_neg (ne_brace_of_hexDigit? h.1).2, h.1, ih h.2]

theorem hexChar_of_ne {start text : List Char} (h : ∀ body, text ≠ '{' :: body) :
    hexChar start text =
      .ok (Char.ofNat (ofDigitValues 16 (hexDigits 2 text).1), (hexDigits 2 text).2) := by
  unfold hexChar
  split
  · next body => exact absurd rfl (h body)
  · rfl

/-- A hexadecimal escape is read as the character it was written for. -/
theorem exists_hexEscape (c : Char) :
    ∃ body, Form.Pcre.hexEscape c = '\\' :: 'x' :: body ∧
      ∀ start rest, escapedChar start 'x' (body ++ rest) = .ok (c, rest) := by
  have hx : ∀ start text, escapedChar start 'x' text = hexChar start text := fun _ _ => rfl
  unfold Form.Pcre.hexEscape
  split
  -- A character of two digits is written without braces, and a larger one with them.
  · next h =>
    refine ⟨_, rfl, ?_⟩
    intro start rest
    obtain ⟨values, hmap, hval⟩ := (hexValue_hex c.toNat).padZeros 2
    have hlen := length_padZeros_hex h
    generalize padZeros 2 (hex c.toNat) = digits at hmap hlen ⊢
    have hread := hexDigits_append hmap rest
    rw [hlen] at hread
    rw [hx, hexChar_of_ne, hread, hval, Char.ofNat_toNat]
    -- The first digit is no brace.
    intro body hbody
    cases digits with
    | nil => simp at hlen
    | cons d digits =>
      rw [List.cons_append, List.cons.injEq] at hbody
      rw [hbody.1, List.map_cons] at hmap
      cases values with
      | nil => simp at hmap
      | cons v values =>
        rw [List.map_cons, List.cons.injEq] at hmap
        exact absurd rfl (ne_brace_of_hexDigit? hmap.1).1
  · refine ⟨'{' :: hex c.toNat ++ ['}'], rfl, ?_⟩
    intro start rest
    obtain ⟨values, hmap, hval⟩ := hexValue_hex c.toNat
    have hread := bracedDigits_append start hmap rest
    rw [hx]
    simp only [List.cons_append, List.append_assoc, List.nil_append, hexChar, hread, hval,
      charOfNat?_toNat]

theorem escape_hex (groups : Nat) (text : List Char) :
    escape groups ('x' :: text) =
      match escapedChar ('\\' :: 'x' :: text) 'x' text with
      | .error f => .error f
      | .ok (d, rest) => .ok (.piece (.literal [d]), rest) := rfl

theorem escape_hexEscape (groups : Nat) (c : Char) :
    ∃ body, Form.Pcre.hexEscape c = '\\' :: body ∧
      ∀ rest, escape groups (body ++ rest) = .ok (.piece (.literal [c]), rest) := by
  obtain ⟨body, hbody, hread⟩ := exists_hexEscape c
  refine ⟨'x' :: body, hbody, ?_⟩
  intro rest
  rw [List.cons_append, escape_hex, hread]

/-! ## Outside of brackets -/

/-- The flags under which a pattern starts. -/
abbrev noFlags : Flags := ⟨false, false⟩

/-- A character that means something by itself stands for itself behind a backslash. -/
theorem escape_special (groups : Nat) {c : Char} (h : Form.Pcre.isSpecial c = true)
    (rest : List Char) : escape groups (c :: rest) = .ok (.piece (.literal [c]), rest) := by
  simp only [Form.Pcre.isSpecial, List.contains_eq_mem, List.mem_cons, List.not_mem_nil, or_false,
    decide_eq_true_eq] at h
  rcases h with rfl | rfl | rfl | rfl | rfl | rfl | rfl | rfl | rfl | rfl | rfl | rfl | rfl | rfl <;>
    rfl

theorem atom_eq_escape (deeper : Option Inside) (flags : Flags) (groups : Nat) (text : List Char) :
    atom deeper flags ⟨'\\' :: text, groups⟩ =
      match escape groups text with
      | .error f => .error f
      | .ok (a, rest) => .ok (a, ⟨rest, groups⟩) := rfl

theorem atom_backslash {deeper : Option Inside} {flags : Flags} {groups : Nat}
    {text rest : List Char} {a : Atom} (h : escape groups text = .ok (a, rest)) :
    atom deeper flags ⟨'\\' :: text, groups⟩ = .ok (a, ⟨rest, groups⟩) := by
  rw [atom_eq_escape, h]

/-- A character that means nothing by itself is an atom. -/
theorem atom_plain (deeper : Option Inside) (flags : Flags) (groups : Nat) {c : Char}
    (h : Form.Pcre.isSpecial c = false) (rest : List Char) :
    atom deeper flags ⟨c :: rest, groups⟩ = .ok (.piece (.literal [c]), ⟨rest, groups⟩) := by
  simp only [Form.Pcre.isSpecial, List.contains_eq_mem, List.mem_cons, List.not_mem_nil, or_false,
    decide_eq_false_iff_not, not_or] at h
  simp only [atom, operatorBounds?]
  simp [h]

/-- Whichever way a character is written, it is read as that character. -/
theorem atom_escaped (deeper : Option Inside) (flags : Flags) (groups : Nat) (c : Char)
    (rest : List Char) :
    atom deeper flags ⟨Form.Pcre.escaped c ++ rest, groups⟩ =
      .ok (.piece (.literal [c]), ⟨rest, groups⟩) := by
  unfold Form.Pcre.escaped
  split
  · next h => exact atom_backslash (escape_special groups h rest)
  · next h =>
    split
    · obtain ⟨body, hbody, hread⟩ := escape_hexEscape groups c
      rw [hbody]
      exact atom_backslash (hread rest)
    · exact atom_plain deeper flags groups (Bool.eq_false_iff.2 h) rest

/-! ## Inside brackets -/

theorem head_cons {d : Char} (h : (d == ']' || d == '[' || d == '^' || d == '-') = false)
    (text : List Char) :
    ∃ e l, d :: text = e :: l ∧ e ≠ ']' ∧ e ≠ '[' ∧ e ≠ '^' ∧ e ≠ '-' := by
  simp only [Bool.or_eq_false_iff, beq_eq_false_iff_ne] at h
  exact ⟨d, text, rfl, h.1.1.1, h.1.1.2, h.1.2, h.2⟩

/-- Whether `text` stands for the character `c` inside brackets: it is read as `c`, whatever
    follows, and what comes before it is read as if it were not there. -/
structure SpellsChar (text : List Char) (c : Char) : Prop where
  head : ∃ d l, text = d :: l ∧ d ≠ ']' ∧ d ≠ '[' ∧ d ≠ '^' ∧ d ≠ '-'
  read : ∀ whole rest, bracketAtom whole (text ++ rest) = .ok (.char c, rest)

theorem bracketAtom_hex (whole text : List Char) :
    bracketAtom whole ('\\' :: 'x' :: text) =
      match escapedChar ('\\' :: 'x' :: text) 'x' text with
      | .error f => .error f
      | .ok (c, rest) => .ok (.char c, rest) := rfl

theorem spellsChar_hexEscape (c : Char) : SpellsChar (Form.Pcre.hexEscape c) c := by
  obtain ⟨body, hbody, hread⟩ := exists_hexEscape c
  rw [hbody]
  refine ⟨head_cons rfl _, ?_⟩
  intro whole rest
  rw [List.cons_append, List.cons_append, bracketAtom_hex, hread]

theorem spellsChar_backslash {c : Char} (h : Form.Pcre.isBracketSpecial c = true) :
    SpellsChar ['\\', c] c := by
  refine ⟨head_cons rfl _, ?_⟩
  intro whole rest
  simp only [Form.Pcre.isBracketSpecial, List.contains_eq_mem, List.mem_cons, List.not_mem_nil,
    or_false, decide_eq_true_eq] at h
  rcases h with rfl | rfl | rfl | rfl | rfl <;> rfl

theorem spellsChar_plain {c : Char} (h : Form.Pcre.isBracketSpecial c = false) :
    SpellsChar [c] c := by
  simp only [Form.Pcre.isBracketSpecial, List.contains_eq_mem, List.mem_cons, List.not_mem_nil,
    or_false, decide_eq_false_iff_not, not_or] at h
  obtain ⟨h1, h2, h3, h4, h5⟩ := h
  refine ⟨⟨c, [], rfl, h2, h3, h4, h5⟩, ?_⟩
  intro whole rest
  rw [List.singleton_append, bracketAtom.eq_def]
  split
  · next heq => simp at heq
  · next heq =>
    rw [List.cons.injEq] at heq
    exact absurd heq.1 h1
  · next heq =>
    rw [List.cons.injEq] at heq
    rw [heq.1, heq.2]

/-- Inside brackets, too, and there other characters need a backslash. -/
theorem spellsChar_bracketEscaped (c : Char) : SpellsChar (Form.Pcre.bracketEscaped c) c := by
  unfold Form.Pcre.bracketEscaped
  split
  · next h => exact spellsChar_backslash h
  · next h =>
    split
    · exact spellsChar_hexEscape c
    · exact spellsChar_plain (Bool.eq_false_iff.2 h)

end Pattern.Pcre

end RegexDialects
