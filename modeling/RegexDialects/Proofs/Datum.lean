import RegexDialects.Form.Render
import RegexDialects.Proofs.NormalForm
import RegexDialects.Proofs.Outcome
import RegexDialects.Proofs.Spelling

/-!
# List notation can be read in one way only

A text in list notation is the text of a datum: an atom, or a list of data with a datum in front
(`Datum`). Two data that begin the same text are the same and end at the same place
(`Datum.print_append_inj`), for whatever atoms that is so and none begins like a list (`Readable`).
The atoms are words, strings, and what only one of the two Lisp forms has (`Atom`). A word
ends at the next space or parenthesis (`Word`), and what is put together from codes of characters
ends where its last code does: a code can be read off whatever text it begins (`IsCode`).

Where data are read as trees, a text therefore says one tree at most (`Reading.Spells.unique`). A
form of output keeps apart whatever trees it says.
-/

set_option autoImplicit false

namespace RegexDialects.Form

/-! ## Codes of characters -/

/-- Whether characters are written such that they can be read off any text that begins with one. -/
def IsCode (code : Char → List Char) : Prop :=
  ∃ read : List Char → Option (Char × List Char), ∀ c rest, read (code c ++ rest) = some (c, rest)

section Codes

variable {code named : Char → List Char} {c d : Char} {r s t u : List Char}

theorem IsCode.append_inj (h : IsCode code) (heq : code c ++ r = code d ++ s) :
    c = d ∧ r = s := by
  obtain ⟨read, hread⟩ := h
  have hsome := hread c r
  rw [heq, hread d s] at hsome
  cases hsome
  exact ⟨rfl, rfl⟩

/-- A run of codes ends at the first character that begins none of them. -/
theorem IsCode.flatMap_append_inj {q : Char} (h : IsCode code)
    (hq : ∀ c, ∃ k l, code c = k :: l ∧ k ≠ q)
    (heq : t.flatMap code ++ q :: r = u.flatMap code ++ q :: s) : t = u ∧ r = s := by
  have ne_cons : ∀ (c : Char) (l r : List Char), q :: r ≠ code c ++ l := by
    intro c l r heq
    obtain ⟨k, l', hk, hne⟩ := hq c
    rw [hk, List.cons_append, List.cons.injEq] at heq
    exact hne heq.1.symm
  induction t generalizing u with
  | nil =>
    cases u with
    | nil => exact ⟨rfl, (List.cons.inj heq).2⟩
    | cons d u =>
      rw [List.flatMap_cons, List.append_assoc] at heq
      exact absurd heq (ne_cons d _ r)
  | cons c t ih =>
    cases u with
    | nil =>
      rw [List.flatMap_cons, List.append_assoc] at heq
      exact absurd heq.symm (ne_cons c _ s)
    | cons d u =>
      rw [List.flatMap_cons, List.append_assoc, List.flatMap_cons, List.append_assoc] at heq
      obtain ⟨rfl, htail⟩ := h.append_inj heq
      obtain ⟨rfl, rfl⟩ := ih htail
      exact ⟨rfl, rfl⟩

/-! ## Characters by number -/

/-- The character whose hexadecimal number stands before the next `stop`. -/
def readHex (stop : Char) (text : List Char) : Option (Char × List Char) :=
  let digits := text.takeWhile (· != stop)
  some (.ofNat (ofDigitValues 16 (digits.filterMap hexDigit?)),
    (text.dropWhile (· != stop)).tail)

theorem readHex_append {stop : Char} {digits : List Char} (hstop : hexDigit? stop = none)
    (h : HexValue digits c.toNat) (rest : List Char) :
    readHex stop (digits ++ stop :: rest) = some (c, rest) := by
  obtain ⟨values, hmap, hval⟩ := h
  have hne : ∀ d ∈ digits, (d != stop) = true := by
    rintro d hd
    refine bne_iff_ne.2 ?_
    rintro rfl
    have : hexDigit? d ∈ values.map some := hmap ▸ List.mem_map_of_mem hd
    rw [hstop] at this
    obtain ⟨_, _, h⟩ := List.mem_map.1 this
    cases h
  have hvalues : digits.filterMap hexDigit? = values := by
    have h := congrArg (List.filterMap id) hmap
    rwa [List.filterMap_map, List.filterMap_map, Function.id_comp, Function.id_comp,
      List.filterMap_some] at h
  have hstart : (stop != stop) = false := bne_self_eq_false stop
  unfold readHex
  simp only [List.takeWhile_append_of_pos hne, List.dropWhile_append_of_pos hne,
    List.takeWhile_cons, List.dropWhile_cons, hstart, Bool.false_eq_true, if_false,
    List.append_nil, List.tail_cons, hvalues, hval, Char.ofNat_toNat]

/-! ## Strings -/

/-- Whether characters are named by a code after a backslash, which is not one of the short ones. -/
structure IsName (named : Char → List Char) : Prop where
  isCode : IsCode named
  start : ∀ c, ∃ k l, named c = '\\' :: k :: l ∧ k ∉ ['"', '\\', 'n', 't']

/-- The character at the start of the inside of a string. -/
def readStringChar (read : List Char → Option (Char × List Char)) :
    List Char → Option (Char × List Char)
  | '\\' :: k :: l =>
    if k = '"' ∨ k = '\\' then some (k, l)
    else if k = 'n' then some ('\n', l)
    else if k = 't' then some ('\t', l)
    else read ('\\' :: k :: l)
  | k :: l => some (k, l)
  | [] => none

theorem IsName.isCode_stringChar (h : IsName named) : IsCode (stringChar named) := by
  obtain ⟨read, hread⟩ := h.isCode
  refine ⟨readStringChar read, ?_⟩
  intro c rest
  unfold stringChar
  split
  · next hc => exact if_pos hc
  · next hc =>
    split
    · next hn => exact hn ▸ rfl
    · split
      · next ht => exact ht ▸ rfl
      · split
        · obtain ⟨k, l, hk, hne⟩ := h.start c
          have hr := hread c rest
          simp only [List.mem_cons, List.not_mem_nil, or_false, not_or] at hne
          rw [hk] at hr ⊢
          simp only [List.cons_append] at hr ⊢
          simp only [readStringChar, hne, or_self, if_false, hr]
        · have hslash : c ≠ '\\' := fun h => hc (Or.inr h)
          simp [readStringChar, hslash]

theorem stringChar_start (h : IsName named) (c : Char) :
    ∃ k l, stringChar named c = k :: l ∧ k ≠ '"' := by
  unfold stringChar
  split
  · exact ⟨_, _, rfl, by decide⟩
  · next hc =>
    split
    · exact ⟨_, _, rfl, by decide⟩
    · split
      · exact ⟨_, _, rfl, by decide⟩
      · split
        · obtain ⟨k, l, hk, -⟩ := h.start c
          exact ⟨_, _, hk, by decide⟩
        · exact ⟨_, _, rfl, fun h => hc (Or.inl h)⟩

/-- A string ends at its quote, and its characters can be read off. -/
theorem stringLiteral_append_inj (h : IsName named)
    (heq : stringLiteral named t ++ r = stringLiteral named u ++ s) : t = u ∧ r = s := by
  simp only [stringLiteral, List.cons_append, List.append_assoc, List.nil_append,
    List.cons.injEq, true_and] at heq
  exact h.isCode_stringChar.flatMap_append_inj (stringChar_start h) heq

end Codes

/-! ## Words -/

/-- Whether a text can end an atom: it is over, or goes on with a space or a parenthesis. -/
def Ends (rest : List Char) : Prop :=
  ∀ c ∈ rest.head?, c = ' ' ∨ c = ')'

theorem ends_space (l : List Char) : Ends (' ' :: l) := by
  rintro c ⟨⟩
  exact Or.inl rfl

theorem ends_close (l : List Char) : Ends (')' :: l) := by
  rintro c ⟨⟩
  exact Or.inr rfl

theorem ends_nil : Ends [] := nofun

/-- Whether a text is a word: it holds no space and no closing parenthesis, and does not begin with
    one of `marks`. -/
def IsWord (marks w : List Char) : Prop :=
  w ≠ [] ∧ (∀ c ∈ w, c ≠ ' ' ∧ c ≠ ')') ∧ ∀ c ∈ w.head?, c ∉ marks

theorem isWord_cons {marks l : List Char} {c : Char} :
    IsWord marks (c :: l) ↔
      (c :: l).all (fun c => c ≠ ' ' ∧ c ≠ ')') = true ∧ c ∉ marks := by
  simp [IsWord]

instance (marks : List Char) : (w : List Char) → Decidable (IsWord marks w)
  | [] => isFalse fun h => h.1 rfl
  | _ :: _ => decidable_of_iff _ isWord_cons.symm

theorem isWord_ofList {marks l : List Char} {name : String} (h : name = .ofList l)
    (hl : IsWord marks l) : IsWord marks name.toList := by
  rwa [h, String.toList_ofList]

/-- A word that begins with none of `marks`, by which other data begin. -/
structure Word (marks : List Char) where
  text : List Char
  isWord : IsWord marks text

namespace Word

variable {marks : List Char} {v w : Word marks} {r s : List Char}

theorem exists_cons (w : Word marks) : ∃ c l, w.text = c :: l ∧ c ∉ marks := by
  obtain ⟨text, hne, -, hstart⟩ := w
  cases text with
  | nil => exact absurd rfl hne
  | cons c l => exact ⟨c, l, rfl, hstart c rfl⟩

/-- A word ends where it can. -/
theorem append_inj (hr : Ends r) (hs : Ends s) (heq : v.text ++ r = w.text ++ s) :
    v = w ∧ r = s := by
  let p : Char → Bool := fun c => c != ' ' && c != ')'
  have inside : ∀ w : Word marks, ∀ c ∈ w.text, p c = true := by
    intro w c hc
    obtain ⟨h, h'⟩ := w.isWord.2.1 c hc
    simp [p, h, h']
  have outside : ∀ l, Ends l → l.takeWhile p = [] := by
    rintro (_ | ⟨c, l⟩) hl
    · rfl
    · rcases hl c rfl with rfl | rfl <;> rfl
  have htake := congrArg (List.takeWhile p) heq
  rw [List.takeWhile_append_of_pos (inside v), List.takeWhile_append_of_pos (inside w),
    outside r hr, outside s hs, List.append_nil, List.append_nil] at htake
  rw [htake] at heq
  obtain ⟨text, h⟩ := v
  obtain rfl : text = w.text := htake
  exact ⟨rfl, List.append_cancel_left heq⟩

/-- A word does not begin like what begins with one of the marks. -/
theorem append_ne_cons {c : Char} (hc : c ∈ marks) (l : List Char) : w.text ++ r ≠ c :: l := by
  intro heq
  obtain ⟨d, m, hw, hd⟩ := w.exists_cons
  rw [hw, List.cons_append, List.cons.injEq] at heq
  exact hd (heq.1 ▸ hc)

end Word

/-- A number is a word where no mark is a digit. -/
theorem isWord_decimal {marks : List Char} (hm : ∀ c ∈ marks, c.isDigit = false) (n : Nat) :
    IsWord marks (decimal n) := by
  have digit : ∀ c ∈ decimal n, c.isDigit = true := fun c hc =>
    Nat.isDigit_of_mem_toDigits (by decide) (by decide) hc
  refine ⟨Nat.toDigits_ne_nil, ?_, ?_⟩
  · intro c hc
    constructor <;> rintro rfl <;> exact absurd (digit _ hc) (by decide)
  · intro c hc hmark
    have hd := digit c (List.mem_of_mem_head? hc)
    rw [hm c hmark] at hd
    cases hd

/-! ## Data -/

/-- A datum over atoms. -/
inductive Datum (α : Type) where
  | atom (a : α)
  /-- A list, with a datum in front. -/
  | list (head : Datum α) (rest : List (Datum α))

namespace Datum

variable {α : Type}

mutual

/-- The text of a datum. -/
def print (spell : α → List Char) : Datum α → List Char
  | .atom a => spell a
  | .list d l => '(' :: print spell d ++ printAll spell l ++ [')']

/-- The texts of data, each with a space in front. -/
def printAll (spell : α → List Char) : List (Datum α) → List Char
  | [] => []
  | d :: l => ' ' :: print spell d ++ printAll spell l

end

theorem printAll_eq_spaced (spell : α → List Char) (l : List (Datum α)) :
    printAll spell l = spaced (l.map (print spell)) := by
  induction l with
  | nil => rfl
  | cons d l ih => simp [printAll, ih, spaced]

/-- Whether atoms can be told apart: by where they end, and from lists. -/
structure Readable (spell : α → List Char) : Prop where
  append_inj : ∀ {a b r s}, Ends r → Ends s → spell a ++ r = spell b ++ s → a = b ∧ r = s
  start : ∀ a, ∃ c l, spell a = c :: l ∧ c ≠ '('

variable {spell : α → List Char}

theorem ends_printAll (l : List (Datum α)) (r : List Char) :
    Ends (printAll spell l ++ ')' :: r) := by
  cases l with
  | nil => exact ends_close r
  | cons d l => exact ends_space _

theorem print_list_append (d : Datum α) (l : List (Datum α)) (r : List Char) :
    print spell (.list d l) ++ r = '(' :: (print spell d ++ (printAll spell l ++ ')' :: r)) := by
  simp [print]

theorem print_atom_ne_list (h : Readable spell) (a : α) (d : Datum α) (l : List (Datum α))
    (r s : List Char) : spell a ++ r ≠ print spell (.list d l) ++ s := by
  intro heq
  obtain ⟨c, m, hc, hne⟩ := h.start a
  rw [hc, print_list_append, List.cons_append, List.cons.injEq] at heq
  exact hne heq.1

/-- **A text begins with one datum at most.** -/
theorem print_append_inj (h : Readable spell) {d e : Datum α} {r s : List Char} (hr : Ends r)
    (hs : Ends s) (heq : print spell d ++ r = print spell e ++ s) : d = e ∧ r = s := by
  refine Datum.rec
    (motive_1 := fun d => ∀ {e : Datum α} {r s}, Ends r → Ends s →
      print spell d ++ r = print spell e ++ s → d = e ∧ r = s)
    (motive_2 := fun l => ∀ {m : List (Datum α)} {r s},
      printAll spell l ++ ')' :: r = printAll spell m ++ ')' :: s → l = m ∧ r = s)
    ?atom ?list ?nil ?cons d hr hs heq
  case atom =>
    intro a e r s hr hs heq
    cases e with
    | atom b =>
      obtain ⟨rfl, rfl⟩ := h.append_inj hr hs heq
      exact ⟨rfl, rfl⟩
    | list d l => exact absurd heq (print_atom_ne_list h a d l r s)
  case list =>
    intro d l ihd ihl e r s hr hs heq
    cases e with
    | atom b => exact absurd heq.symm (print_atom_ne_list h b d l s r)
    | list e m =>
      rw [print_list_append, print_list_append, List.cons.injEq] at heq
      obtain ⟨rfl, htail⟩ := ihd (ends_printAll l r) (ends_printAll m s) heq.2
      obtain ⟨rfl, rfl⟩ := ihl htail
      exact ⟨rfl, rfl⟩
  case nil =>
    intro m r s heq
    cases m with
    | nil => exact ⟨rfl, (List.cons.inj heq).2⟩
    | cons e m => cases heq
  case cons =>
    intro d l ihd ihl m r s heq
    cases m with
    | nil => cases heq
    | cons e m =>
      simp only [printAll, List.cons_append, List.append_assoc, List.cons.injEq, true_and] at heq
      obtain ⟨rfl, htail⟩ := ihd (ends_printAll l r) (ends_printAll m s) heq
      obtain ⟨rfl, rfl⟩ := ihl htail
      exact ⟨rfl, rfl⟩

/-- A text is the text of one datum at most. -/
theorem print_inj (h : Readable spell) {d e : Datum α} (heq : print spell d = print spell e) :
    d = e :=
  (print_append_inj h ends_nil ends_nil (congrArg (· ++ []) heq)).1

end Datum

/-! ## Atoms -/

/-- An atom: a word, a string, or something of a sort that only one of the forms has. -/
inductive Atom (marks : List Char) (β : Type) where
  | word (w : Word marks)
  | string (t : List Char)
  | other (b : β)

section Atoms

variable {marks : List Char} {β : Type}

/-- The text of an atom. -/
def Atom.text (named : Char → List Char) (other : β → List Char) : Atom marks β → List Char
  | .word w => w.text
  | .string t => stringLiteral named t
  | .other b => other b

/-- Atoms can be told apart if marks tell their sorts apart. -/
theorem readable_text {named : Char → List Char} {other : β → List Char} (hn : IsName named)
    (hq : '"' ∈ marks) (hp : '(' ∈ marks)
    (start : ∀ b, ∃ c l, other b = c :: l ∧ c ∈ marks ∧ c ≠ '"' ∧ c ≠ '(')
    (inj : ∀ {a b r s}, other a ++ r = other b ++ s → a = b ∧ r = s) :
    Datum.Readable (Atom.text named other : Atom marks β → List Char) where
  append_inj := by
    -- The sort of an atom shows in its first character.
    have word_ne : ∀ (w : Word marks) (r : List Char) (b : β) (s : List Char),
        w.text ++ r ≠ other b ++ s := by
      intro w r b s heq
      obtain ⟨c, l, hc, hm, -⟩ := start b
      rw [hc] at heq
      exact Word.append_ne_cons hm _ heq
    have string_ne : ∀ (t r : List Char) (b : β) (s : List Char),
        stringLiteral named t ++ r ≠ other b ++ s := by
      intro t r b s heq
      obtain ⟨c, l, hc, -, hne, -⟩ := start b
      rw [hc, stringLiteral, List.cons_append, List.cons_append, List.cons_append,
        List.cons.injEq] at heq
      exact hne heq.1.symm
    intro a b r s hr hs heq
    cases a with
    | word v =>
      cases b with
      | word w =>
        obtain ⟨rfl, rfl⟩ := Word.append_inj hr hs heq
        exact ⟨rfl, rfl⟩
      | string t => exact absurd heq (Word.append_ne_cons hq _)
      | other b => exact absurd heq (word_ne v r b s)
    | string t =>
      cases b with
      | word w => exact absurd heq.symm (Word.append_ne_cons hq _)
      | string u =>
        obtain ⟨rfl, rfl⟩ := stringLiteral_append_inj hn heq
        exact ⟨rfl, rfl⟩
      | other b => exact absurd heq (string_ne t r b s)
    | other a =>
      cases b with
      | word w => exact absurd heq.symm (word_ne w s a r)
      | string u => exact absurd heq.symm (string_ne u s a r)
      | other b =>
        obtain ⟨rfl, rfl⟩ := inj heq
        exact ⟨rfl, rfl⟩
  start := by
    rintro (w | t | b)
    · obtain ⟨c, l, hw, hc⟩ := w.exists_cons
      exact ⟨c, l, hw, fun h => hc (h ▸ hp)⟩
    · exact ⟨_, _, rfl, by decide⟩
    · obtain ⟨c, l, hb, -, -, hne⟩ := start b
      exact ⟨c, l, hb, hne⟩

/-- The datum of a word. -/
def word (name : String) (h : IsWord marks name.toList) : Datum (Atom marks β) :=
  .atom (.word ⟨name.toList, h⟩)

/-- The datum of a number. -/
def number (hm : ∀ c ∈ marks, c.isDigit = false) (n : Nat) : Datum (Atom marks β) :=
  .atom (.word ⟨decimal n, isWord_decimal hm n⟩)

/-- The word that a datum is. -/
def word? : Datum (Atom marks β) → Option String
  | .atom (.word w) => some (.ofList w.text)
  | _ => none

/-- The number that a datum is. -/
def number? : Datum (Atom marks β) → Option Nat
  | .atom (.word w) => some (decimalValue w.text)
  | _ => none

theorem word?_word {name : String} (h : IsWord marks name.toList) :
    word? (β := β) (word name h) = some name :=
  congrArg some String.ofList_toList

theorem number?_number (hm : ∀ c ∈ marks, c.isDigit = false) (n : Nat) :
    number? (β := β) (number hm n) = some n :=
  congrArg some (decimalValue_decimal n)

end Atoms

/-! ## What data say -/

/-- How atoms are spelled, and which data are read as which trees: an atom by itself, and a list by
    the atom in front, of whose other items some may be trees. -/
structure Reading (α : Type) where
  spell : α → List Char
  atom? : α → Option Regex
  list? : α → List (Datum α) → List (Option Regex) → Option Regex

namespace Reading

variable {α : Type} {R : Reading α}

mutual

/-- The tree that a datum says. -/
def tree? (R : Reading α) : Datum α → Option Regex
  | .atom a => R.atom? a
  | .list (.atom a) l => R.list? a l (trees R l)
  | .list (.list _ _) _ => none

/-- The trees that data say. -/
def trees (R : Reading α) : List (Datum α) → List (Option Regex)
  | [] => []
  | d :: l => tree? R d :: trees R l

end

theorem trees_eq_map (l : List (Datum α)) : R.trees l = l.map R.tree? := by
  induction l with
  | nil => rfl
  | cons d l ih => rw [trees, ih, List.map_cons]

/-- Whether a text is that of a datum which is read as the tree. -/
def Spells (R : Reading α) (text : List Char) (e : Regex) : Prop :=
  ∃ d, Datum.print R.spell d = text ∧ R.tree? d = some e

/-- A text says one tree at most. -/
theorem Spells.unique (h : Datum.Readable R.spell) {text : List Char} {e f : Regex}
    (he : R.Spells text e) (hf : R.Spells text f) : e = f := by
  obtain ⟨d, hd, he⟩ := he
  obtain ⟨d', hd', hf⟩ := hf
  obtain rfl := Datum.print_inj h (hd.trans hd'.symm)
  exact Option.some.inj (he.symm.trans hf)

/-- What the texts of several trees say. -/
theorem exists_data {write : Regex → Except Unwritable (List Char)} {g : Regex → Regex}
    {l : List Regex} {texts : List (List Char)}
    (h : ∀ e ∈ l, ∀ text, write e = .ok text → R.Spells text (g e))
    (htexts : l.mapM write = .ok texts) :
    ∃ ds : List (Datum α),
      ds.map (Datum.print R.spell) = texts ∧ ds.map R.tree? = (l.map g).map some := by
  induction l generalizing texts with
  | nil =>
    cases htexts
    exact ⟨[], rfl, rfl⟩
  | cons e l ih =>
    obtain ⟨text, texts, he, hl, rfl⟩ := mapM_cons_eq_ok_iff.1 htexts
    obtain ⟨d, hd, htree⟩ := h e List.mem_cons_self text he
    obtain ⟨ds, hds, htrees⟩ := ih (fun x hx => h x (List.mem_cons_of_mem _ hx)) hl
    refine ⟨d :: ds, ?_, ?_⟩
    · rw [List.map_cons, hd, hds]
    · rw [List.map_cons, List.map_cons, List.map_cons, htree, htrees]

/-- A list that is written says what the atom in front makes of the other items. -/
theorem spells_list {a : α} {name : String} (ha : R.spell a = name.toList) {l : List (Datum α)}
    {texts : List (List Char)} {e : Regex} (ht : l.map (Datum.print R.spell) = texts)
    (he : R.list? a l (l.map R.tree?) = some e) : R.Spells (listForm name texts) e := by
  refine ⟨.list (.atom a) l, ?_, ?_⟩
  · rw [Datum.print, Datum.print, Datum.printAll_eq_spaced, ht, ha]
    rfl
  · rw [tree?, trees_eq_map, he]

/-- What was written in a form of output spells what the writer's text does. -/
theorem spells_of_render {target : Target} {e f : Regex} {text : String}
    (hf : ∀ t, Form.text target e = .ok t → R.Spells t f) (h : e.render target = .ok text) :
    R.Spells text.toList f := by
  unfold Regex.render at h
  split at h
  · next t ht =>
    cases h
    rw [String.toList_ofList]
    exact hf t ht
  · cases h

end Reading

/-! ## Lists with a word in front -/

/-- The tree around the one tree there is. -/
def around? (f : Regex → Regex) : List (Option Regex) → Option Regex
  | [e] => e.map f
  | _ => none

/-- All of several trees as parts of one, or the tree without parts. -/
def ofParts? (nothing : Regex) (parts : List Regex → Regex) (trees : List (Option Regex)) :
    Option Regex :=
  (trees.mapM id).map fun
    | [] => nothing
    | l => parts l

theorem ofParts?_map_some {l : List Regex} (hl : l ≠ []) (nothing : Regex)
    (parts : List Regex → Regex) : ofParts? nothing parts (l.map some) = some (parts l) := by
  have hid : ∀ m : List Regex, (m.map some).mapM id = some m := by
    intro m
    induction m with
    | nil => rfl
    | cons e m ih =>
      rw [List.map_cons, List.mapM_cons, ih]
      rfl
  rw [ofParts?, hid]
  cases l with
  | nil => exact absurd rfl hl
  | cons e l => rfl

/-- Whether words are spelled as they are, and a list with a word in front is read by that word. -/
structure Reading.ByWord {marks : List Char} {β : Type} (R : Reading (Atom marks β))
    (form? : String → List (Datum (Atom marks β)) → List (Option Regex) → Option Regex) : Prop where
  spell : ∀ w, R.spell (.word w) = w.text
  list : ∀ w items trees, R.list? (.word w) items trees = form? (.ofList w.text) items trees

/-- A list that repeats what it holds, in a notation that says by `optional` that there is one copy
    at most and by `between` that both bounds are in front. -/
def repetitionForm (optional between : String) (least : Nat) (most : Option Nat)
    (body : List Char) : List Char :=
  match least, most with
  | 0, none => listForm "*" [body]
  | 1, none => listForm "+" [body]
  | 0, some 1 => listForm optional [body]
  | n, none => listForm ">=" [decimal n, body]
  | n, some m =>
    if n = m then listForm "=" [decimal n, body]
    else listForm between [decimal n, decimal m, body]

/-- Whether such lists are read as the repetitions that they say. -/
structure ReadsRepetitions {marks : List Char} {β : Type}
    (form? : String → List (Datum (Atom marks β)) → List (Option Regex) → Option Regex)
    (optional between : String) : Prop where
  any : ∀ d e, form? "*" [d] [some e] = some (.repetition 0 none true e)
  positive : ∀ d e, form? "+" [d] [some e] = some (.repetition 1 none true e)
  optional : ∀ d e, form? optional [d] [some e] = some (.repetition 0 (some 1) true e)
  atLeast : ∀ {a n} d t e, number? a = some n →
    form? ">=" [a, d] [t, some e] = some (.repetition n none true e)
  exactly : ∀ {a n} d t e, number? a = some n →
    form? "=" [a, d] [t, some e] = some (.repetition n (some n) true e)
  between : ∀ {a b n m} d t u e, number? a = some n → number? b = some m →
    form? between [a, b, d] [t, u, some e] = some (.repetition n (some m) true e)

namespace Reading.ByWord

variable {marks : List Char} {β : Type} {R : Reading (Atom marks β)} {name : String}
  {form? : String → List (Datum (Atom marks β)) → List (Option Regex) → Option Regex}

/-- A list that is written says what its first word makes of its items. -/
theorem spells_listForm (h : R.ByWord form?) (hname : IsWord marks name.toList)
    {l : List (Datum (Atom marks β))} {texts : List (List Char)} {e : Regex}
    (ht : l.map (Datum.print R.spell) = texts) (he : form? name l (l.map R.tree?) = some e) :
    R.Spells (listForm name texts) e := by
  refine Reading.spells_list (h.spell ⟨name.toList, hname⟩) ht ?_
  rw [h.list, String.ofList_toList, he]

/-- A list around one tree. -/
theorem spells_around (h : R.ByWord form?) (hname : IsWord marks name.toList) {text : List Char}
    {e f : Regex} (ht : R.Spells text e) (hf : ∀ d, form? name [d] [some e] = some f) :
    R.Spells (listForm name [text]) f := by
  obtain ⟨d, rfl, hd⟩ := ht
  refine h.spells_listForm hname (l := [d]) rfl ?_
  rw [List.map_singleton, hd]
  exact hf d

/-- A list of parts, where the word in front asks for all of them. -/
theorem spells_parts (h : R.ByWord form?) (nothing : Regex) (parts : List Regex → Regex)
    (hname : IsWord marks name.toList) {write : Regex → Except Unwritable (List Char)}
    {g : Regex → Regex} {l : List Regex} {texts : List (List Char)} (hl : l ≠ [])
    (ht : l.mapM write = .ok texts)
    (hs : ∀ e ∈ l, ∀ text, write e = .ok text → R.Spells text (e.rewrite g))
    (hform : ∀ ds, ds.map R.tree? = (l.map (Regex.rewrite g)).map some →
      form? name ds (ds.map R.tree?) = ofParts? nothing parts (ds.map R.tree?)) :
    R.Spells (listForm name texts) (parts (Regex.rewriteAll g l)) := by
  obtain ⟨ds, hds, htrees⟩ := Reading.exists_data hs ht
  refine h.spells_listForm hname hds ?_
  rw [hform ds htrees, htrees, Regex.rewriteAll_eq_map]
  exact ofParts?_map_some (mt List.map_eq_nil_iff.1 hl) nothing parts

/-- A list that repeats, whatever the bounds. -/
theorem spells_repetitionForm (h : R.ByWord form?) {optional between : String}
    (hr : ReadsRepetitions form? optional between) (hm : ∀ c ∈ marks, c.isDigit = false)
    (hw : ∀ w ∈ ["*", "+", optional, ">=", "=", between], IsWord marks w.toList) (least : Nat)
    (most : Option Nat) {text : List Char} {e : Regex} (ht : R.Spells text e) :
    R.Spells (repetitionForm optional between least most text) (.repetition least most true e) := by
  have hprint (n : Nat) : (number hm n : Datum (Atom marks β)).print R.spell = decimal n :=
    h.spell _
  have hnumber (n : Nat) : number? (number hm n : Datum (Atom marks β)) = some n :=
    number?_number hm n
  unfold repetitionForm
  split
  · exact h.spells_around (hw _ (by simp)) ht fun d => hr.any d e
  · exact h.spells_around (hw _ (by simp)) ht fun d => hr.positive d e
  · exact h.spells_around (hw _ (by simp)) ht fun d => hr.optional d e
  · obtain ⟨d, rfl, hd⟩ := ht
    refine h.spells_listForm (hw _ (by simp)) (l := [number hm least, d]) ?_ ?_
    · rw [List.map_cons, List.map_singleton, hprint]
    · rw [List.map_cons, List.map_singleton, hd]
      exact hr.atLeast d _ e (hnumber least)
  · next m _ =>
    obtain ⟨d, rfl, hd⟩ := ht
    split
    · next heq =>
      refine h.spells_listForm (hw _ (by simp)) (l := [number hm least, d]) ?_ ?_
      · rw [List.map_cons, List.map_singleton, hprint]
      · rw [List.map_cons, List.map_singleton, hd, ← heq]
        exact hr.exactly d _ e (hnumber least)
    · refine h.spells_listForm (hw _ (by simp)) (l := [number hm least, number hm m, d]) ?_ ?_
      · rw [List.map_cons, List.map_cons, List.map_singleton, hprint, hprint]
      · rw [List.map_cons, List.map_cons, List.map_singleton, hd]
        exact hr.between d _ _ e (hnumber least) (hnumber m)

end Reading.ByWord

end RegexDialects.Form

namespace RegexDialects.Regex

/-- A set that is one character, as a text of one character: in list notation they are written
    alike. -/
def singleAsLiteral : Regex → Regex
  | .set s =>
    match s.singleChar? with
    | some c => .literal [c]
    | none => .set s
  | e => e

end RegexDialects.Regex
