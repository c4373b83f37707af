import RegexDialects.Proofs.Built
import RegexDialects.Proofs.CaptureOrder
import RegexDialects.Proofs.Datum

/-!
# The SRE form is unambiguous

The SRE form of a tree is a datum that can be read as the tree again (`Form.Sre.spells_render`), but
for whether one character is a set or a text. Since a text says one tree at most, no other trees
have their form in common.

Sets, choices and characters of words are all written as lists with `or` in front. They are told
apart by the other items: those of a set are the parts of one, characters before classes, while a
choice in normal form has a branch that is no part of a set.
-/

set_option autoImplicit false

namespace RegexDialects

namespace Form.Sre

open Regex Datum

/-! ## Atoms -/

/-- The characters by which other data than words begin. -/
def marks : List Char := ['(', '"']

theorem isDigit_marks : ∀ c ∈ marks, c.isDigit = false := by
  simp [marks]

theorem isName_named : IsName named where
  isCode := by
    refine ⟨fun text => readHex ';' (text.drop 2), ?_⟩
    intro c rest
    have h : named c ++ rest = '\\' :: 'x' :: (hex c.toNat ++ ';' :: rest) := by
      simp [named]
    rw [h]
    exact readHex_append (by decide) (hexValue_hex c.toNat) rest
  start := fun _ => ⟨_, _, rfl, by decide⟩

theorem readable_atoms : Readable (Atom.text named Empty.elim : Atom marks Empty → List Char) :=
  readable_text isName_named (by decide) (by decide) nofun fun {a} => a.elim

/-! ## Reading data -/

/-- The data of the form: words, strings, and lists of them. -/
abbrev Item := Datum (Atom marks Empty)

/-- The primitive of an SRE word. -/
def primitive? (name : String) : Option Primitive :=
  Primitive.all.find? (·.sre? == some name)

/-- The ranges whose ends are given one after the other. -/
def pairs : List Char → List (Char × Char)
  | a :: b :: l => (a, b) :: pairs l
  | _ => []

/-- The part of a set that a datum is: characters, ranges, or a class. -/
def part? : Item → Option CharSet
  | .list (.atom (.string t)) [] => some ⟨t, [], []⟩
  | .list (.atom (.word w)) [.atom (.string t)] =>
    if String.ofList w.text = "/" then some ⟨[], pairs t, []⟩ else none
  | .atom (.word w) => (PosixClass.ofName? (.ofList w.text)).map fun k => ⟨[], [], [k]⟩
  | _ => none

/-- The set of its parts. -/
def set? : List Item → Option CharSet
  | [] => some .empty
  | d :: l => do
    let s ← part? d
    let t ← set? l
    return ⟨s.chars ++ t.chars, s.ranges ++ t.ranges, s.classes ++ t.classes⟩

/-- The items by which a character of a word is written: `alnum` and a list of the underscore. -/
def isWordChar : List Item → Bool
  | [.atom (.word w), .list (.atom (.string ['_'])) []] => String.ofList w.text == "alnum"
  | _ => false

/-- What a list says, by the word in front. Some of its items are trees. -/
def form? (head : String) (items : List Item) (trees : List (Option Regex)) : Option Regex :=
  match head with
  | ":" => ofParts? .empty .sequence trees
  | "or" =>
    if isWordChar items then some (.primitive .wordChar)
    else
      match set? items with
      | some s => some (.set s)
      | none => ofParts? fail .choice trees
  | "/" =>
    match items with
    | [.atom (.string t)] => some (.set ⟨[], pairs t, []⟩)
    | _ => none
  | "~" =>
    if isWordChar items then some (.primitive .notWordChar) else around? .complement trees
  | "&" => ofParts? (.intersection []) .intersection trees
  | "submatch" => around? .group trees
  | "backref" =>
    match items with
    | [n] => (number? n).map .backref
    | _ => none
  | "*" => around? (.repetition 0 none true) trees
  | "+" => around? (.repetition 1 none true) trees
  | "?" => around? (.repetition 0 (some 1) true) trees
  | ">=" =>
    match items with
    | [n, _] => do around? (.repetition (← number? n) none true) trees.tail
    | _ => none
  | "=" =>
    match items with
    | [n, _] => do
      let count ← number? n
      around? (.repetition count (some count) true) trees.tail
    | _ => none
  | "**" =>
    match items with
    | [n, m, _] => do
      around? (.repetition (← number? n) (some (← number? m)) true) trees.tail.tail
    | _ => none
  | _ => none

theorem form?_or (items : List Item) (trees : List (Option Regex)) :
    form? "or" items trees =
      if isWordChar items then some (.primitive .wordChar)
      else
        match set? items with
        | some s => some (.set s)
        | none => ofParts? fail .choice trees :=
  rfl

theorem form?_not (items : List Item) (trees : List (Option Regex)) :
    form? "~" items trees =
      if isWordChar items then some (.primitive .notWordChar) else around? .complement trees :=
  rfl

/-- What a word says that stands alone: a class or a primitive. -/
def wordTree? (name : String) : Option Regex :=
  match PosixClass.ofName? name with
  | some k => some (.set ⟨[], [], [k]⟩)
  | none => (primitive? name).map .primitive

/-- What an atom says that stands alone. -/
def atom? : Atom marks Empty → Option Regex
  | .word w => wordTree? (.ofList w.text)
  | .string t => some (.literal t)

/-- What a list says, by the atom in front. -/
def list? : Atom marks Empty → List Item → List (Option Regex) → Option Regex
  | .word w, items, trees => form? (.ofList w.text) items trees
  | .string t, [], _ => some (.set ⟨t, [], []⟩)
  | .string _, _ :: _, _ => none

/-- How the SRE form is read. -/
def reading : Reading (Atom marks Empty) where
  spell := Atom.text named Empty.elim
  atom? := atom?
  list? := list?

/-- A part of a set says the set. -/
theorem tree?_of_part? {d : Item} {s : CharSet} (h : part? d = some s) :
    reading.tree? d = some (.set s) := by
  unfold part? at h
  split at h
  · cases h
    rfl
  · next w t =>
    split at h
    · next hw =>
      cases h
      show form? (.ofList w.text) _ _ = _
      rw [hw]
      rfl
    · cases h
  · next w =>
    obtain ⟨k, hk, rfl⟩ := Option.map_eq_some_iff.1 h
    show wordTree? (.ofList w.text) = _
    rw [wordTree?, hk]
  · cases h

theorem byWord : reading.ByWord form? where
  spell := fun _ => rfl
  list := fun _ _ _ => rfl

theorem readsRepetitions : ReadsRepetitions form? "?" "**" where
  any := fun _ _ => rfl
  positive := fun _ _ => rfl
  optional := fun _ _ => rfl
  atLeast := by
    intro a n d t e ha
    exact congrArg (Option.bind · fun k => around? (.repetition k none true) [some e]) ha
  exactly := by
    intro a n d t e ha
    exact congrArg (Option.bind · fun k => around? (.repetition k (some k) true) [some e]) ha
  between := by
    intro a b n m d t u e ha hb
    have hbind := congrArg (Option.bind · fun k => (number? b).bind fun k' =>
      around? (.repetition k (some k') true) [some e]) ha
    exact hbind.trans (congrArg (Option.bind · fun k' => around? (.repetition n (some k') true)
      [some e]) hb)

/-! ## Words and repetitions -/

section Written

variable {text : List Char} {e : Regex}

theorem tree?_word {name : String} (h : IsWord marks name.toList) :
    reading.tree? (word name h) = wordTree? name :=
  congrArg wordTree? String.ofList_toList

theorem spells_repetition (least : Nat) (most : Option Nat) (h : reading.Spells text e) :
    reading.Spells (repetition least most text) (.repetition least most true e) :=
  byWord.spells_repetitionForm readsRepetitions isDigit_marks (by decide) least most h

/-! ## Sets -/

theorem isWord_class (k : PosixClass) : IsWord marks k.name.toList := by
  cases k <;> exact isWord_ofList rfl (by decide)

/-- The datum of a class. -/
def classItem (k : PosixClass) : Item :=
  word k.name (isWord_class k)

/-- The datum of a string. -/
def stringItem (t : List Char) : Item :=
  .atom (.string t)

/-- The datum of characters. -/
def charsItem (cs : List Char) : Item :=
  .list (stringItem cs) []

/-- The datum of ranges: their ends, one after the other. -/
def rangesItem (rs : List (Char × Char)) : Item :=
  .list (word "/" (by decide)) [stringItem (rs.flatMap fun r => [r.1, r.2])]

/-- The data of the parts of a set. -/
def partItems (s : CharSet) : List Item :=
  (if s.chars.isEmpty then [] else [charsItem s.chars]) ++
    (if s.ranges.isEmpty then [] else [rangesItem s.ranges]) ++ s.classes.map classItem

theorem classNames_eq_map {ks : List PosixClass} {names : List (List Char)}
    (h : classNames ks = .ok names) : names = ks.map fun k => k.name.toList := by
  induction ks generalizing names with
  | nil =>
    cases h
    rfl
  | cons k ks ih =>
    unfold classNames at h
    split at h
    · obtain ⟨names, hn, h⟩ := bind_eq_ok_iff.1 h
      cases h
      rw [List.map_cons, ← ih hn]
    · cases h

theorem print_charsItem (cs : List Char) :
    print reading.spell (charsItem cs) = '(' :: string cs ++ [')'] := by
  show '(' :: string cs ++ [] ++ [')'] = _
  rw [List.append_nil]

theorem print_partItems {s : CharSet} {texts : List (List Char)} (h : setParts s = .ok texts) :
    (partItems s).map (print reading.spell) = texts := by
  obtain ⟨names, hn, h⟩ := bind_eq_ok_iff.1 h
  cases h
  have hclass : print reading.spell ∘ classItem = fun k => k.name.toList := rfl
  rw [classNames_eq_map hn, partItems, List.map_append, List.map_append, List.map_map, hclass]
  congr 2
  · split
    · rfl
    · rw [List.map_singleton, print_charsItem]
  · split <;> rfl

theorem pairs_flatMap (rs : List (Char × Char)) :
    pairs (rs.flatMap fun r => [r.1, r.2]) = rs := by
  induction rs with
  | nil => rfl
  | cons r rs ih =>
    rw [List.flatMap_cons]
    show (r.1, r.2) :: pairs (rs.flatMap _) = _
    rw [ih]

theorem part?_classItem (k : PosixClass) : part? (classItem k) = some ⟨[], [], [k]⟩ := by
  simp [part?, classItem, word, PosixClass.ofName?_name]

theorem part?_charsItem (cs : List Char) : part? (charsItem cs) = some ⟨cs, [], []⟩ := rfl

theorem part?_rangesItem (rs : List (Char × Char)) : part? (rangesItem rs) = some ⟨[], rs, []⟩ := by
  show some (CharSet.mk [] (pairs (rs.flatMap fun r => [r.1, r.2])) []) = _
  rw [pairs_flatMap]

theorem set?_classItems (ks : List PosixClass) :
    set? (ks.map classItem) = some ⟨[], [], ks⟩ := by
  induction ks with
  | nil => rfl
  | cons k ks ih => simp [set?, part?_classItem, ih]

theorem set?_partItems (s : CharSet) : set? (partItems s) = some s := by
  obtain ⟨cs, rs, ks⟩ := s
  unfold partItems
  cases cs <;> cases rs <;>
    simp [set?, part?_charsItem, part?_rangesItem, set?_classItems]

/-- The parts of a set are not those of a character of a word: there, the class comes first. -/
theorem isWordChar_partItems (s : CharSet) : isWordChar (partItems s) = false := by
  obtain ⟨cs, rs, ks⟩ := s
  unfold partItems
  match cs, rs, ks with
  | c :: cs, [], ks => cases ks <;> rfl
  | c :: cs, r :: rs, ks => rfl
  | [], r :: rs, ks => cases ks <;> rfl
  | [], [], [] => rfl
  | [], [], [k] => rfl
  | [], [], k :: k' :: ks => cases ks <;> rfl

theorem spells_charSet {s : CharSet} (h : charSet s = .ok text) :
    reading.Spells text (singleAsLiteral (.set s)) := by
  unfold charSet at h
  unfold singleAsLiteral
  cases hs : s.singleChar? with
  | some c =>
    simp only [hs] at h ⊢
    cases h
    exact ⟨stringItem [c], rfl, rfl⟩
  | none =>
    simp only [hs] at h ⊢
    obtain ⟨texts, ht, h⟩ := bind_eq_ok_iff.1 h
    have hprint := print_partItems ht
    have hset := set?_partItems s
    split at h
    · -- There is one part, and it is the whole set.
      cases h
      obtain ⟨d, hd, rfl⟩ := List.map_eq_singleton_iff.1 hprint
      rw [hd] at hset
      refine ⟨d, rfl, tree?_of_part? ?_⟩
      cases hp : part? d with
      | none => simp [set?, hp] at hset
      | some t => simpa [set?, hp, CharSet.empty] using hset
    · cases h
      refine byWord.spells_listForm (by decide) hprint ?_
      simp [form?_or, isWordChar_partItems, hset]

theorem isWordChar_singleton (d : Item) : isWordChar [d] = false := by
  unfold isWordChar
  split
  · next h => cases h
  · rfl

/-! ## Choices -/

theorem exists_part?_of_mem {l : List Item} {s : CharSet} (h : set? l = some s) {d : Item}
    (hd : d ∈ l) : ∃ t, part? d = some t := by
  induction l generalizing s with
  | nil => exact absurd hd List.not_mem_nil
  | cons x l ih =>
    unfold set? at h
    cases hx : part? x with
    | none => simp [hx] at h
    | some t =>
      cases hl : set? l with
      | none => simp [hx, hl] at h
      | some u =>
        rcases List.mem_cons.1 hd with rfl | hd
        · exact ⟨t, hx⟩
        · exact ih hl hd

/-- A tree that is kept as a set is a plain one, and more than one character. -/
theorem isPlain_of_rewrite {s : CharSet} (h : e.rewrite singleAsLiteral = .set s) :
    e = .set s ∧ s.singleChar? = none := by
  cases e with
  | set t =>
    change singleAsLiteral (.set t) = _ at h
    unfold singleAsLiteral at h
    dsimp only at h
    split at h
    · cases h
    · next ht =>
      cases h
      exact ⟨rfl, ht⟩
  | _ => cases h

theorem set?_eq_none {l : List Regex} (hl : ∃ e ∈ l, e.isPlain = false) {ds : List Item}
    (h : ds.map reading.tree? = (l.map (rewrite singleAsLiteral)).map some) : set? ds = none := by
  obtain ⟨e, he, hp⟩ := hl
  refine Option.eq_none_iff_forall_ne_some.2 ?_
  intro s hs
  have hmem : some (e.rewrite singleAsLiteral) ∈ ds.map reading.tree? :=
    h ▸ List.mem_map_of_mem (List.mem_map_of_mem he)
  obtain ⟨d, hd, htree⟩ := List.mem_map.1 hmem
  obtain ⟨t, ht⟩ := exists_part?_of_mem hs hd
  rw [tree?_of_part? ht, Option.some.injEq] at htree
  rw [(isPlain_of_rewrite htree.symm).1] at hp
  cases hp

theorem isWordChar_eq_false {l : List Regex} {ds : List Item}
    (h : ds.map reading.tree? = (l.map (rewrite singleAsLiteral)).map some) :
    isWordChar ds = false := by
  unfold isWordChar
  split
  · -- No tree is kept as the set of the underscore.
    have hmem : some (Regex.set ⟨['_'], [], []⟩) ∈ (l.map (rewrite singleAsLiteral)).map some :=
      h ▸ List.mem_cons_of_mem _ List.mem_cons_self
    obtain ⟨f, hf, hset⟩ := List.mem_map.1 hmem
    obtain ⟨e, -, rfl⟩ := List.mem_map.1 hf
    cases (isPlain_of_rewrite (Option.some.inj hset)).2
  · rfl

/-! ## Trees -/

theorem isWord_of_sre? {p : Primitive} {name : String} (h : p.sre? = some name)
    (hw : p ≠ .wordChar) (hn : p ≠ .notWordChar) :
    IsWord marks name.toList ∧ wordTree? name = some (.primitive p) := by
  cases p <;> cases h <;> first | exact absurd rfl hw | exact absurd rfl hn | skip
  all_goals exact ⟨by decide, rfl⟩

theorem spells_primitive {p : Primitive} (h : render (.primitive p) = .ok text) :
    reading.Spells text (.primitive p) := by
  unfold render at h
  split at h
  · next name hname =>
    cases h
    by_cases hw : p = .wordChar
    · subst hw
      cases hname
      exact byWord.spells_listForm (by decide : IsWord marks "or".toList)
        (l := [classItem .alnum, charsItem ['_']]) rfl rfl
    · by_cases hn : p = .notWordChar
      · subst hn
        cases hname
        exact byWord.spells_listForm (by decide : IsWord marks "~".toList)
          (l := [classItem .alnum, charsItem ['_']]) rfl rfl
      · obtain ⟨hword, htree⟩ := isWord_of_sre? hname hw hn
        exact ⟨word name hword, rfl, (tree?_word _).trans htree⟩
  · cases h

/-- **The SRE form of a tree says the tree**, as far as the form keeps it. -/
theorem spells_render (he : e.Normal) (h : render e = .ok text) :
    reading.Spells text (e.rewrite singleAsLiteral) := by
  induction e using inductionOn generalizing text with
  | empty =>
    cases h
    exact byWord.spells_listForm (by decide) (l := []) rfl rfl
  | literal t =>
    cases h
    exact ⟨stringItem t, rfl, rfl⟩
  | primitive p => exact spells_primitive h
  | sequence l ih =>
    obtain ⟨texts, htexts, h⟩ := bind_eq_ok_iff.1 h
    cases h
    obtain ⟨hn, hl⟩ := everywhere_sequence.1 he
    exact byWord.spells_parts .empty .sequence (by decide) (ne_nil_of_two_le_length hn.1)
      (renderAll_eq_mapM l ▸ htexts) (fun e hm _ => ih e hm (hl e hm)) fun _ _ => rfl
  | choice l ih =>
    obtain ⟨texts, htexts, h⟩ := bind_eq_ok_iff.1 h
    cases h
    obtain ⟨hn, hl⟩ := everywhere_choice.1 he
    refine byWord.spells_parts fail .choice (by decide) (ne_nil_of_two_le_length hn.1)
      (renderAll_eq_mapM l ▸ htexts) (fun e hm _ => ih e hm (hl e hm)) ?_
    intro ds htrees
    rw [form?_or, isWordChar_eq_false htrees, set?_eq_none hn.2.2 htrees]
    rfl
  | repetition n m g e ih =>
    unfold render at h
    split at h
    · next hg =>
      obtain ⟨body, hbody, h⟩ := bind_eq_ok_iff.1 h
      cases h
      rw [hg]
      exact spells_repetition n m (ih (everywhere_repetition.1 he).2 hbody)
    · cases h
  | group e ih =>
    obtain ⟨body, hbody, h⟩ := bind_eq_ok_iff.1 h
    cases h
    exact byWord.spells_around (by decide) (ih (everywhere_group.1 he).2 hbody) fun _ => rfl
  | backref n =>
    cases h
    refine byWord.spells_listForm (by decide) (l := [number isDigit_marks n]) rfl ?_
    exact congrArg (Option.map Regex.backref) (number?_number (β := Empty) isDigit_marks n)
  | set s => exact spells_charSet h
  | complement e ih =>
    obtain ⟨body, hbody, h⟩ := bind_eq_ok_iff.1 h
    cases h
    refine byWord.spells_around (by decide) (ih (everywhere_complement.1 he).2 hbody) ?_
    intro d
    rw [form?_not, isWordChar_singleton]
    rfl
  | intersection l ih =>
    obtain ⟨texts, htexts, h⟩ := bind_eq_ok_iff.1 h
    cases h
    obtain ⟨hn, hl⟩ := everywhere_intersection.1 he
    exact byWord.spells_parts (.intersection []) .intersection (by decide) (ne_nil_of_two_le_length hn.1)
      (renderAll_eq_mapM l ▸ htexts) (fun e hm _ => ih e hm (hl e hm)) fun _ _ => rfl
  | syntaxClass k => cases h
  | category k => cases h

end Written

end Form.Sre

namespace Regex

/-- **Trees that were built have an SRE form in common only if they are the same**, but for whether
    one character is a set or a text. -/
theorem rewrite_eq_of_render_sre {e f : Regex} (he : e.Built) (hf : f.Built) {text : String}
    (h : e.render .sre = .ok text) (h' : f.render .sre = .ok text) :
    e.rewrite singleAsLiteral = f.rewrite singleAsLiteral := by
  have spells : ∀ {e : Regex}, e.Built → e.render .sre = .ok text →
      Form.Sre.reading.Spells text.toList (e.rewrite singleAsLiteral) := by
    intro e he h
    refine Form.Reading.spells_of_render ?_ h
    exact fun _ => Form.Sre.spells_render he.fit.normal
  exact (spells he h).unique Form.Sre.readable_atoms (spells hf h')

/-- A set of one character is written like the character. -/
theorem rewrite_eq_of_render_sre_char :
    (set (.of (.char 'a'))).Built ∧ (text ['a']).Built ∧
      (set (.of (.char 'a'))).render .sre = .ok "\"a\"" ∧
      (text ['a']).render .sre = .ok "\"a\"" ∧
      (set (.of (.char 'a'))).rewrite singleAsLiteral = (text ['a']).rewrite singleAsLiteral := by
  have hb : (set (.of (.char 'a'))).Built := .set (.adjoin .empty nofun)
  exact ⟨hb, .text _, rfl, rfl, rewrite_eq_of_render_sre hb (.text _) rfl rfl⟩

end Regex

end RegexDialects
