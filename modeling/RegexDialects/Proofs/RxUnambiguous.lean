import RegexDialects.Proofs.Built
import RegexDialects.Proofs.CaptureOrder
import RegexDialects.Proofs.Datum

/-!
# The `rx` form is unambiguous

The `rx` form of a tree is a datum that can be read as the tree again (`Form.Rx.spells_render`), but
for what the form leaves out (`Form.Rx.identified`): whether one character is a set or a text,
whether any character is a primitive or excludes nothing, and whether an exact count is lazy. Since
a text says one tree at most, no other trees have their form in common.

A list is read by its first word (`Form.Rx.form?`). Characters that mean something to the notation,
such as quotes and parentheses, stand in strings and character literals only, and those are taken
apart character by character.
-/

set_option autoImplicit false

namespace RegexDialects

namespace Form.Rx

open Regex Datum

/-! ## Atoms -/

/-- The characters by which other data than words begin. -/
def marks : List Char := ['(', '"', '?']

theorem isDigit_marks : ∀ c ∈ marks, c.isDigit = false := by
  simp [marks]

/-- The number of a character in its name: four digits at least, in upper case. -/
def digits (c : Char) : List Char :=
  padZeros 4 ((hex c.toNat).map Char.toUpper)

theorem named_append (c : Char) (rest : List Char) :
    named c ++ rest = '\\' :: 'N' :: '\x7b' :: 'U' :: '+' :: (digits c ++ '}' :: rest) := by
  have h : named c = '\\' :: 'N' :: '\x7b' :: 'U' :: '+' :: (digits c ++ ['}']) := rfl
  rw [h]
  simp only [List.cons_append, List.append_assoc, List.nil_append]

theorem readHex_digits (c : Char) (rest : List Char) :
    readHex '}' (digits c ++ '}' :: rest) = some (c, rest) := by
  have hupper : ∀ d < 16, hexDigit? d.digitChar.toUpper = some d := by decide
  exact readHex_append (by decide) ((hexValue_map_hex hupper c.toNat).padZeros 4) rest

theorem isName_named : IsName named where
  isCode := by
    refine ⟨fun text => readHex '}' (text.drop 5), ?_⟩
    intro c rest
    rw [named_append]
    exact readHex_digits c rest
  start := fun _ => ⟨_, _, rfl, by decide⟩

/-- The character at the start of a text of character literals. -/
def readCharLiteral : List Char → Option (Char × List Char)
  | '?' :: '\\' :: k :: l =>
    if k = 's' then some (' ', l)
    else if k = 'n' then some ('\n', l)
    else if k = 't' then some ('\t', l)
    else if k = 'N' then readHex '}' (l.drop 3)
    else some (k, l)
  | '?' :: k :: l => some (k, l)
  | _ => none

theorem ne_of_isLiteralSpecial {c : Char} (h : isLiteralSpecial c = true) :
    c ≠ 's' ∧ c ≠ 'n' ∧ c ≠ 't' ∧ c ≠ 'N' := by
  refine ⟨?_, ?_, ?_, ?_⟩ <;> rintro rfl <;> exact absurd h (by decide)

theorem isCode_charLiteral : IsCode charLiteral := by
  refine ⟨readCharLiteral, ?_⟩
  intro c rest
  unfold charLiteral
  split
  · next h => exact h ▸ rfl
  · split
    · next h => exact h ▸ rfl
    · split
      · next h => exact h ▸ rfl
      · split
        · next h =>
          obtain ⟨hs, hn, ht, hN⟩ := ne_of_isLiteralSpecial h
          simp only [List.cons_append, List.nil_append, readCharLiteral, hs, hn, ht, hN, if_false]
        · next h =>
          split
          · rw [List.cons_append, named_append]
            exact readHex_digits c rest
          · have hslash : c ≠ '\\' := by
              rintro rfl
              exact h (by decide)
            simp [readCharLiteral, hslash]

theorem exists_charLiteral (c : Char) : ∃ l, charLiteral c = '?' :: l := by
  unfold charLiteral
  split
  · exact ⟨_, rfl⟩
  · split
    · exact ⟨_, rfl⟩
    · split
      · exact ⟨_, rfl⟩
      · split
        · exact ⟨_, rfl⟩
        · split <;> exact ⟨_, rfl⟩

theorem readable_atoms : Readable (Atom.text named charLiteral : Atom marks Char → List Char) := by
  refine readable_text isName_named (by decide) (by decide) ?_ isCode_charLiteral.append_inj
  intro c
  obtain ⟨l, hl⟩ := exists_charLiteral c
  exact ⟨'?', l, hl, by decide, by decide, by decide⟩

/-! ## Reading data -/

/-- The data of the form: words, strings and character literals, and lists of them. -/
abbrev Item := Datum (Atom marks Char)

/-- The syntax class of a name. -/
def syntaxClass? (name : String) : Option SyntaxClass :=
  [.whitespace, .punctuation, .word, .symbol, .openParenthesis, .closeParenthesis,
   .expressionPrefix, .stringQuote, .pairedDelimiter, .escape, .characterQuote, .commentStart,
   .commentEnd, .stringDelimiter, .commentDelimiter].find? (·.name == name)

/-- The category of a name. -/
def category? (name : String) : Option Category :=
  Category.all.find? (·.name == name)

/-- What a word says that stands alone: a primitive or a class. -/
def wordTree? (name : String) : Option Regex :=
  match Primitive.ofRx? name with
  | some p => some (.primitive p)
  | none => (PosixClass.ofName? name).map fun k => .set ⟨[], [], [k]⟩

/-- The set of its members: characters, ranges as dotted pairs, and classes. -/
def set? : List Item → Option CharSet
  | [] => some .empty
  | .atom (.other c) :: l => (set? l).map fun s => { s with chars := c :: s.chars }
  | .list (.atom (.other a)) [_, .atom (.other b)] :: l =>
    (set? l).map fun s => { s with ranges := (a, b) :: s.ranges }
  | .atom (.word w) :: l => do
    let s ← set? l
    let k ← PosixClass.ofName? (.ofList w.text)
    return { s with classes := k :: s.classes }
  | _ => none

/-- What a list says, by the word in front. Some of its items are trees. -/
def form? (head : String) (items : List Item) (trees : List (Option Regex)) : Option Regex :=
  match head with
  | "seq" => ofParts? .empty .sequence trees
  | "or" => ofParts? fail .choice trees
  | "any" => (set? items).map fun s => singleAsLiteral (.set s)
  | "not" => around? .complement trees
  | "submatch" => around? .group trees
  | "backref" =>
    match items with
    | [n] => (number? n).map .backref
    | _ => none
  | "syntax" =>
    match items with
    | [k] => (word? k >>= syntaxClass?).map .syntaxClass
    | _ => none
  | "category" =>
    match items with
    | [k] => (word? k >>= category?).map .category
    | _ => none
  | "*" => around? (.repetition 0 none true) trees
  | "+" => around? (.repetition 1 none true) trees
  | "opt" => around? (.repetition 0 (some 1) true) trees
  | "*?" => around? (.repetition 0 none false) trees
  | "+?" => around? (.repetition 1 none false) trees
  | "\\??" => around? (.repetition 0 (some 1) false) trees
  | ">=" =>
    match items with
    | [n, _] => do around? (.repetition (← number? n) none true) trees.tail
    | _ => none
  | "=" =>
    match items with
    | [n, _] => do
      let count ← number? n
      around? (.repetition count (some count) true) trees.tail
    | _ => none
  | "repeat" =>
    match items with
    | [n, m, _] => do
      around? (.repetition (← number? n) (some (← number? m)) true) trees.tail.tail
    | _ => none
  | _ => none

/-- What an atom says that stands alone. -/
def atom? : Atom marks Char → Option Regex
  | .word w => wordTree? (.ofList w.text)
  | .string t => some (.literal t)
  | .other _ => none

/-- What a list says, by the atom in front. -/
def list? : Atom marks Char → List Item → List (Option Regex) → Option Regex
  | .word w, items, trees => form? (.ofList w.text) items trees
  | _, _, _ => none

/-- How the `rx` form is read. -/
def reading : Reading (Atom marks Char) where
  spell := Atom.text named charLiteral
  atom? := atom?
  list? := list?

theorem byWord : reading.ByWord form? where
  spell := fun _ => rfl
  list := fun _ _ _ => rfl

theorem readsRepetitions : ReadsRepetitions form? "opt" "repeat" where
  any := fun _ _ => rfl
  positive := fun _ _ => rfl
  optional := fun _ _ => rfl
  atLeast := by
    intro a n d t e ha
    exact congrArg (Option.bind · fun k => around? (.repetition k none true) [some e]) ha
  exactly := by
    intro a n d t e ha
    exact congrArg (Option.bind · fun k => around? (.repetition k (some k) true) [some e]) ha
  between := by
    intro a b n m d t u e ha hb
    have hbind := congrArg (Option.bind · fun k => (number? b).bind fun k' =>
      around? (.repetition k (some k') true) [some e]) ha
    exact hbind.trans (congrArg (Option.bind · fun k' => around? (.repetition n (some k') true)
      [some e]) hb)

/-! ## Words and repetitions -/

section Written

variable {text : List Char} {e : Regex}

theorem tree?_word {name : String} (h : IsWord marks name.toList) :
    reading.tree? (word name h) = wordTree? name :=
  congrArg wordTree? String.ofList_toList

theorem spells_greedyForm (least : Nat) (most : Option Nat) (h : reading.Spells text e) :
    reading.Spells (greedyForm least most text) (.repetition least most true e) :=
  byWord.spells_repetitionForm readsRepetitions isDigit_marks (by decide) least most h

theorem spells_lazyForm {least : Nat} {most : Option Nat} {body : List Char}
    (hbody : reading.Spells body e) (h : lazyForm least most body = .ok text) :
    reading.Spells text (.repetition least most (most == some least) e) := by
  unfold lazyForm at h
  split at h
  · cases h
    exact byWord.spells_around (by decide) hbody fun _ => rfl
  · cases h
    exact byWord.spells_around (by decide) hbody fun _ => rfl
  · cases h
    exact byWord.spells_around (by decide) hbody fun _ => rfl
  · split at h
    · next heq =>
      cases h
      rw [← heq, beq_self_eq_true]
      exact spells_greedyForm least (some least) hbody
    · cases h
  · cases h

end Written

/-! ## Names -/

theorem isWord_class (k : PosixClass) : IsWord marks k.name.toList := by
  cases k <;> exact isWord_ofList rfl (by decide)

theorem isWord_primitive (p : Primitive) : IsWord marks p.rx.toList := by
  cases p <;> exact isWord_ofList rfl (by decide)

theorem isWord_syntaxClass (k : SyntaxClass) : IsWord marks k.name.toList := by
  cases k <;> exact isWord_ofList rfl (by decide)

theorem isWord_category (k : Category) : IsWord marks k.name.toList := by
  cases k <;> exact isWord_ofList rfl (by decide)

theorem syntaxClass?_name (k : SyntaxClass) : syntaxClass? k.name = some k := by
  cases k <;> decide

theorem category?_name (k : Category) : category? k.name = some k := by
  cases k <;> decide

theorem wordTree?_primitive (p : Primitive) : wordTree? p.rx = some (.primitive p) := by
  rw [wordTree?, Primitive.ofRx?_rx]

theorem wordTree?_class (k : PosixClass) : wordTree? k.name = some (.set ⟨[], [], [k]⟩) := by
  have hp : Primitive.ofRx? k.name = none := by
    cases k <;> decide
  rw [wordTree?, hp, PosixClass.ofName?_name]
  rfl

/-! ## Sets -/

/-- The datum of a character. -/
def charItem (c : Char) : Item :=
  .atom (.other c)

/-- The datum of a range: a dotted pair. -/
def rangeItem (r : Char × Char) : Item :=
  .list (charItem r.1) [word "." (by decide), charItem r.2]

/-- The datum of a class. -/
def classItem (k : PosixClass) : Item :=
  word k.name (isWord_class k)

/-- The data of the members of a set. -/
def memberItems (s : CharSet) : List Item :=
  s.chars.map charItem ++ s.ranges.map rangeItem ++ s.classes.map classItem

theorem set?_classItems (ks : List PosixClass) :
    set? (ks.map classItem) = some ⟨[], [], ks⟩ := by
  induction ks with
  | nil => rfl
  | cons k ks ih => simp [set?, ih, classItem, word, PosixClass.ofName?_name]

theorem set?_rangeItems (rs : List (Char × Char)) {l : List Item} {ks : List PosixClass}
    (h : set? l = some ⟨[], [], ks⟩) : set? (rs.map rangeItem ++ l) = some ⟨[], rs, ks⟩ := by
  induction rs with
  | nil => exact h
  | cons r rs ih => simp [set?, ih, rangeItem, charItem]

theorem set?_charItems (cs : List Char) {l : List Item} {rs : List (Char × Char)}
    {ks : List PosixClass} (h : set? l = some ⟨[], rs, ks⟩) :
    set? (cs.map charItem ++ l) = some ⟨cs, rs, ks⟩ := by
  induction cs with
  | nil => exact h
  | cons c cs ih => simp [set?, ih, charItem]

theorem set?_memberItems (s : CharSet) : set? (memberItems s) = some s := by
  rw [memberItems, List.append_assoc]
  exact set?_charItems _ (set?_rangeItems _ (set?_classItems _))

theorem print_rangeItem (r : Char × Char) : print reading.spell (rangeItem r) = range r := by
  show '(' :: charLiteral r.1 ++ (' ' :: ['.'] ++ (' ' :: charLiteral r.2 ++ [])) ++ [')'] = _
  simp [range]

theorem print_memberItems (s : CharSet) :
    (memberItems s).map (print reading.spell) = s.chars.map charLiteral ++ s.ranges.map range ++
      s.classes.map fun k => k.name.toList := by
  have hchar : print reading.spell ∘ charItem = charLiteral := rfl
  have hrange : print reading.spell ∘ rangeItem = range := funext print_rangeItem
  have hclass : print reading.spell ∘ classItem = fun k => k.name.toList := rfl
  simp only [memberItems, List.map_append, List.map_map, hchar, hrange, hclass]

theorem spells_charSet (s : CharSet) : reading.Spells (charSet s) (singleAsLiteral (.set s)) := by
  unfold charSet
  split
  · next k hk =>
    rw [CharSet.singleClass?_eq_some_iff.1 hk]
    exact ⟨classItem k, rfl, (tree?_word _).trans (wordTree?_class k)⟩
  · refine byWord.spells_listForm (by decide) (print_memberItems s) ?_
    exact congrArg (Option.map fun t => singleAsLiteral (.set t)) (set?_memberItems s)

end Form.Rx

/-! ## Trees that are written alike -/

namespace Regex

/-- Whatever excludes nothing, as the primitive that matches any character. -/
def allAsAnything : Regex → Regex
  | .complement e => if e.isFail then .primitive .anything else .complement e
  | e => e

/-- A repetition with an exact count, as a greedy one. -/
def exactAsGreedy : Regex → Regex
  | .repetition n m g e => .repetition n m (g || m == some n) e
  | e => e

end Regex

namespace Form.Rx

open Regex Datum

/-- A node as the `rx` form keeps it. -/
def identified (e : Regex) : Regex :=
  exactAsGreedy (allAsAnything (singleAsLiteral e))

variable {text : List Char} {e : Regex}

theorem identified_set (s : CharSet) : identified (.set s) = singleAsLiteral (.set s) := by
  unfold identified singleAsLiteral
  dsimp only
  split <;> rfl

theorem spells_set {s : CharSet} (h : render (.set s) = .ok text) :
    reading.Spells text (identified (.set s)) := by
  rw [identified_set]
  unfold render at h
  split at h
  · next hs =>
    cases h
    rw [CharSet.isEmpty_eq_true_iff.1 hs]
    exact byWord.spells_listForm (by decide) (l := []) rfl rfl
  · split at h
    · next c hc =>
      cases h
      rw [CharSet.singleChar?_eq_some_iff.1 hc]
      exact ⟨.atom (.string [c]), rfl, rfl⟩
    · cases h
      exact spells_charSet s

theorem spells_complement_set {s : CharSet} (h : render (.complement (.set s)) = .ok text) :
    reading.Spells text (identified (.complement (identified (.set s)))) := by
  unfold render at h
  split at h
  · next hs =>
    cases h
    rw [CharSet.isEmpty_eq_true_iff.1 hs]
    exact ⟨word "anything" (by decide), rfl, rfl⟩
  · next hs =>
    cases h
    have hfail : (singleAsLiteral (.set s)).isFail = false := by
      unfold singleAsLiteral
      dsimp only
      split
      · rfl
      · exact Bool.not_eq_true _ ▸ hs
    have hid : identified (.complement (singleAsLiteral (.set s))) =
        .complement (singleAsLiteral (.set s)) := by
      show exactAsGreedy (if (singleAsLiteral (.set s)).isFail then _ else _) = _
      rw [hfail]
      rfl
    rw [identified_set, hid]
    exact byWord.spells_around (by decide) (spells_charSet s) fun _ => rfl

/-- **The `rx` form of a tree says the tree**, as far as the form keeps it. -/
theorem spells_render (he : e.Normal) (h : render e = .ok text) :
    reading.Spells text (e.rewrite identified) := by
  induction e using inductionOn generalizing text with
  | empty =>
    cases h
    exact byWord.spells_listForm (by decide) (l := []) rfl rfl
  | literal t =>
    cases h
    exact ⟨.atom (.string t), rfl, rfl⟩
  | primitive p =>
    cases h
    exact ⟨word p.rx (isWord_primitive p), rfl, (tree?_word _).trans (wordTree?_primitive p)⟩
  | sequence l ih =>
    obtain ⟨texts, htexts, h⟩ := bind_eq_ok_iff.1 h
    cases h
    obtain ⟨hn, hl⟩ := everywhere_sequence.1 he
    exact byWord.spells_parts .empty .sequence (by decide) (ne_nil_of_two_le_length hn.1)
      (renderAll_eq_mapM l ▸ htexts) (fun e hm _ => ih e hm (hl e hm)) fun _ _ => rfl
  | choice l ih =>
    obtain ⟨texts, htexts, h⟩ := bind_eq_ok_iff.1 h
    cases h
    obtain ⟨hn, hl⟩ := everywhere_choice.1 he
    exact byWord.spells_parts fail .choice (by decide) (ne_nil_of_two_le_length hn.1)
      (renderAll_eq_mapM l ▸ htexts) (fun e hm _ => ih e hm (hl e hm)) fun _ _ => rfl
  | repetition n m g e ih =>
    obtain ⟨body, hbody, h⟩ := bind_eq_ok_iff.1 h
    have hspells := ih (everywhere_repetition.1 he).2 hbody
    cases g with
    | true =>
      cases h
      exact spells_greedyForm n m hspells
    | false => exact spells_lazyForm hspells h
  | group e ih =>
    obtain ⟨body, hbody, h⟩ := bind_eq_ok_iff.1 h
    cases h
    exact byWord.spells_around (by decide) (ih (everywhere_group.1 he).2 hbody) fun _ => rfl
  | backref n =>
    cases h
    refine byWord.spells_listForm (by decide) (l := [number isDigit_marks n]) rfl ?_
    exact congrArg (Option.map Regex.backref) (number?_number (β := Char) isDigit_marks n)
  | syntaxClass k =>
    cases h
    refine byWord.spells_listForm (by decide) (l := [word k.name (isWord_syntaxClass k)]) rfl ?_
    change (word? (word k.name (isWord_syntaxClass k)) >>= syntaxClass?).map Regex.syntaxClass = _
    rw [word?_word]
    exact congrArg (Option.map Regex.syntaxClass) (syntaxClass?_name k)
  | category k =>
    cases h
    refine byWord.spells_listForm (by decide) (l := [word k.name (isWord_category k)]) rfl ?_
    change (word? (word k.name (isWord_category k)) >>= category?).map Regex.category = _
    rw [word?_word]
    exact congrArg (Option.map Regex.category) (category?_name k)
  | set s => exact spells_set h
  | complement e ih =>
    obtain ⟨hn, he⟩ := everywhere_complement.1 he
    rcases isNegatable_iff.1 hn with ⟨s, rfl⟩ | ⟨k, rfl⟩ | ⟨k, rfl⟩
    · exact spells_complement_set h
    · obtain ⟨body, hbody, h⟩ := bind_eq_ok_iff.1 h
      cases h
      exact byWord.spells_around (by decide) (ih he hbody) fun _ => rfl
    · obtain ⟨body, hbody, h⟩ := bind_eq_ok_iff.1 h
      cases h
      exact byWord.spells_around (by decide) (ih he hbody) fun _ => rfl
  | intersection l _ => cases h

end Form.Rx

namespace Regex

/-- **Trees that were built have an `rx` form in common only if they are the same**, but for what
    the form leaves out. -/
theorem rewrite_eq_of_render_rx {e f : Regex} (he : e.Built) (hf : f.Built) {text : String}
    (h : e.render .rx = .ok text) (h' : f.render .rx = .ok text) :
    e.rewrite Form.Rx.identified = f.rewrite Form.Rx.identified := by
  have spells : ∀ {e : Regex}, e.Built → e.render .rx = .ok text →
      Form.Rx.reading.Spells text.toList (e.rewrite Form.Rx.identified) := by
    intro e he h
    refine Form.Reading.spells_of_render ?_ h
    exact fun _ => Form.Rx.spells_render he.fit.normal
  exact (spells he h).unique Form.Rx.readable_atoms (spells hf h')

/-- What excludes nothing is written like the primitive for any character. -/
theorem rewrite_eq_of_render_rx_anything :
    (complement fail).Built ∧ (primitive .anything).Built ∧
      (complement fail).render .rx = .ok "anything" ∧
      (primitive .anything).render .rx = .ok "anything" ∧
      (complement fail).rewrite Form.Rx.identified =
        (primitive .anything).rewrite Form.Rx.identified := by
  have hb : (complement fail).Built := .negate (.set .empty) rfl
  exact ⟨hb, .primitive _, rfl, rfl, rewrite_eq_of_render_rx hb (.primitive _) rfl rfl⟩

end Regex

end RegexDialects
