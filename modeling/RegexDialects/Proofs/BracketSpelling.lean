import RegexDialects.Proofs.ReadBack
import RegexDialects.Proofs.Spelling

/-!
# Bracket expressions, written and read

What stands between brackets is the texts of members, one after the other (`SpellsAll`). The reader
takes them apart again: no text of a member can be taken for the end of the expression, for a `^` in
front, or for the dash of a range that the member before it begins.

`bracket_of_spellsAll` and `negatedBracket_of_spellsAll` say what tree a whole bracket expression is
read as; `spellsAll_bracketItems` says that the writer puts texts of the expected members between
brackets.
-/

set_option autoImplicit false

namespace RegexDialects.Pattern.Pcre

open Regex Form.Pcre

/-! ## Members -/

/-- Whether `text` stands for a member inside brackets, unless a dash follows. -/
structure Spells (text : List Char) (m : Member) : Prop where
  head : ∃ d l, text = d :: l ∧ d ≠ ']' ∧ d ≠ '^' ∧ d ≠ '-'
  read : ∀ whole first rest, (∀ c ∈ rest.head?, c ≠ '-') →
    brackets.member? whole first (text ++ rest) = .ok (some m.tree, rest)

theorem readClass?_of_ne {negatable : Bool} {text : List Char} (h : ∀ c ∈ text.head?, c ≠ '[') :
    readClass? negatable text = .ok none := by
  unfold readClass?
  split
  · exact absurd rfl (h _ rfl)
  · exact absurd rfl (h _ rfl)
  · exact absurd rfl (h _ rfl)
  · rfl

/-- What is no bracket, and no class, is an item. -/
theorem member?_of_item {whole text rest : List Char} {d : Char} {l : List Char} {e : Regex}
    (htext : text = d :: l) (h1 : d ≠ ']') (h2 : d ≠ '[')
    (h : brackets.item whole text = .ok (e, rest)) (first : Bool) :
    brackets.member? whole first text = .ok (some e, rest) := by
  subst htext
  have hc : readClass? brackets.negatedNames (d :: l) = .ok none := by
    apply readClass?_of_ne
    intro c hc
    cases hc
    exact h2
  unfold BracketGrammar.member?
  simp only [h1, false_and, if_false, hc, h]

/-- The text of a character stands for it. -/
theorem spells_char {text : List Char} {c : Char} (h : SpellsChar text c) :
    Spells text (.item (.char c)) := by
  obtain ⟨d, l, htext, h1, h2, h3, h4⟩ := h.head
  refine ⟨⟨d, l, htext, h1, h3, h4⟩, ?_⟩
  intro whole first rest hrest
  refine member?_of_item (d := d) (l := l ++ rest) (by rw [htext]; rfl) h1 h2 ?_ first
  have hatom : brackets.atom whole (text ++ rest) = .ok (.char c, rest) := h.read whole rest
  unfold BracketGrammar.item
  rw [hatom]
  simp only
  -- A dash behind the character would make it the beginning of a range.
  split
  · exact absurd rfl (hrest _ rfl)
  · rfl

/-- Two characters in order with a dash between them are a range, whatever comes next. -/
theorem spells_range {text text' : List Char} {lo up : Char} (hle : lo ≤ up)
    (h : SpellsChar text lo) (h' : SpellsChar text' up) :
    Spells (text ++ '-' :: text') (.item (.range lo up)) := by
  obtain ⟨d, l, htext, h1, h2, h3, h4⟩ := h.head
  obtain ⟨d', l', htext', h1', -⟩ := h'.head
  refine ⟨⟨d, l ++ '-' :: text', by rw [htext]; rfl, h1, h3, h4⟩, ?_⟩
  intro whole first rest _
  rw [List.append_assoc, List.cons_append]
  refine member?_of_item (d := d) (by rw [htext]; rfl) h1 h2 ?_ first
  have hatom : brackets.atom whole (text ++ '-' :: (text' ++ rest)) =
      .ok (.char lo, '-' :: (text' ++ rest)) := h.read whole _
  have hatom' : brackets.atom whole (text' ++ rest) = .ok (.char up, rest) := h'.read whole rest
  -- The dash is not the last member, since the upper end does not begin with a closing bracket.
  unfold BracketGrammar.item
  rw [hatom]
  rw [htext', List.cons_append] at hatom' ⊢
  simp only [if_neg h1', BracketGrammar.rangeEnd, hatom', if_pos hle]
  rfl

theorem head_bracket (text : List Char) :
    ∃ d l, '[' :: text = d :: l ∧ d ≠ ']' ∧ d ≠ '^' ∧ d ≠ '-' :=
  ⟨'[', text, rfl, by decide, by decide, by decide⟩

theorem isClassNameChar_name (k : PosixClass) : ∀ c ∈ k.name.toList, isClassNameChar c = true := by
  have hall : k.name.toList.all isClassNameChar = true := by
    cases k <;> rfl
  exact List.all_eq_true.1 hall

theorem namedClass?_name (k : PosixClass) :
    namedClass? true k.name.toList = some (.set (.of (.posix k))) := by
  cases k <;> decide

theorem namedClass?_caret_name (k : PosixClass) :
    namedClass? true ('^' :: k.name.toList) = some (.complement (.set (.of (.posix k)))) := by
  cases k <;> decide

/-- A name between colons is read as what it names. -/
theorem member?_of_name {name : List Char} {e : Regex}
    (hname : ∀ c ∈ name, isClassNameChar c = true) (h : namedClass? true name = some e)
    (whole : List Char) (first : Bool) (rest : List Char) :
    brackets.member? whole first ('[' :: ':' :: name ++ [':', ']'] ++ rest) =
      .ok (some e, rest) := by
  -- A colon is no character of a name, so the name ends there.
  have htake : (name ++ ':' :: ']' :: rest).takeWhile isClassNameChar = name := by
    rw [List.takeWhile_append_of_pos hname]
    simp [isClassNameChar]
  have hdrop : (name ++ ':' :: ']' :: rest).dropWhile isClassNameChar = ':' :: ']' :: rest := by
    rw [List.dropWhile_append_of_pos hname]
    simp [isClassNameChar]
  have hclass : readClass? brackets.negatedNames ('[' :: ':' :: (name ++ ':' :: ']' :: rest)) =
      .ok (some (e, rest)) := by
    unfold readClass?
    simp only [hdrop, htake]
    rw [show namedClass? brackets.negatedNames name = some e from h]
  simp only [List.cons_append, List.append_assoc, List.nil_append]
  unfold BracketGrammar.member?
  simp only [hclass]
  rfl

theorem spells_posix (k : PosixClass) :
    Spells ('[' :: ':' :: k.name.toList ++ [':', ']']) (.item (.posix k)) := by
  refine ⟨head_bracket _, ?_⟩
  intro whole first rest _
  exact member?_of_name (isClassNameChar_name k) (namedClass?_name k) whole first rest

theorem spells_except (k : PosixClass) :
    Spells ('[' :: ':' :: '^' :: k.name.toList ++ [':', ']']) (.except k) := by
  refine ⟨head_bracket _, ?_⟩
  intro whole first rest _
  have hname : ∀ c ∈ '^' :: k.name.toList, isClassNameChar c = true := by
    intro c hc
    rcases List.mem_cons.1 hc with rfl | hc
    · rfl
    · exact isClassNameChar_name k c hc
  exact member?_of_name hname (namedClass?_caret_name k) whole first rest

/-- An escape for a class is read as the class. -/
theorem spells_shorthand {c : Char} {m : Member} (h : bracketClass? c = some m.tree) :
    Spells ['\\', c] m := by
  refine ⟨⟨'\\', [c], rfl, by decide, by decide, by decide⟩, ?_⟩
  intro whole first rest _
  show brackets.member? whole first ('\\' :: c :: rest) = _
  have hatom : brackets.atom whole ('\\' :: c :: rest) = .ok (.tree m.tree, rest) := by
    show bracketEscape whole (c :: rest) = _
    simp only [bracketEscape, h]
  refine member?_of_item rfl (by decide) (by decide) ?_ first
  unfold BracketGrammar.item
  rw [hatom]

/-! ## All members -/

/-- Whether `text` is the texts of members, one after the other. -/
inductive SpellsAll : List Char → List Member → Prop
  | nil : SpellsAll [] []
  | cons {text text' : List Char} {m : Member} {ms : List Member} :
      Spells text m → SpellsAll text' ms → SpellsAll (text ++ text') (m :: ms)

theorem Spells.all {text : List Char} {m : Member} (h : Spells text m) : SpellsAll text [m] := by
  have := SpellsAll.cons h .nil
  rwa [List.append_nil] at this

theorem SpellsAll.append {text text' : List Char} {ms ms' : List Member} (h : SpellsAll text ms)
    (h' : SpellsAll text' ms') : SpellsAll (text ++ text') (ms ++ ms') := by
  induction h with
  | nil => exact h'
  | cons hm _ ih =>
    rw [List.append_assoc]
    exact .cons hm ih

theorem spellsAll_flatMap {α : Type} {f : α → List Char} {g : α → Member} {l : List α}
    (h : ∀ a ∈ l, Spells (f a) (g a)) : SpellsAll (l.flatMap f) (l.map g) := by
  induction l with
  | nil => exact .nil
  | cons a l ih =>
    rw [List.flatMap_cons]
    refine .cons (h a List.mem_cons_self) (ih ?_)
    intro b hb
    exact h b (List.mem_cons_of_mem _ hb)

/-- What follows a member never starts with a dash. -/
theorem SpellsAll.head {text : List Char} {ms : List Member} (h : SpellsAll text ms)
    (rest : List Char) : ∀ c ∈ (text ++ ']' :: rest).head?, c ≠ '-' := by
  intro c hc
  cases h with
  | nil =>
    cases hc
    decide
  | cons hm _ =>
    obtain ⟨d, l, rfl, -, -, hd⟩ := hm.head
    cases hc
    exact hd

/-- Nor does what stands between brackets start with a `^`, which would negate it. -/
theorem SpellsAll.head_ne_caret {text : List Char} {ms : List Member} (h : SpellsAll text ms)
    (hn : ms ≠ []) (rest : List Char) : ∀ l, text ++ rest ≠ '^' :: l := by
  intro l hl
  cases h with
  | nil => exact hn rfl
  | cons hm _ =>
    obtain ⟨d, l', rfl, -, hd, -⟩ := hm.head
    rw [List.append_assoc, List.cons_append, List.cons.injEq] at hl
    exact hd hl.1

/-- The reader finds the members again. -/
theorem members_of_spellsAll {text : List Char} {ms : List Member} (h : SpellsAll text ms)
    (whole : List Char) {first : Bool} (hf : first = true → ms ≠ []) (rest : List Char) :
    brackets.members whole first (text ++ ']' :: rest) = .ok (ms.map Member.tree, rest) := by
  induction h generalizing first with
  | nil =>
    have hfirst : first = false := by
      cases first with
      | true => exact absurd rfl (hf rfl)
      | false => rfl
    subst hfirst
    unfold BracketGrammar.members
    rfl
  | @cons _ _ m ms hm hms ih =>
    have hlater : false = true → ms ≠ [] := by
      intro h
      cases h
    have hrest := ih hlater
    have hread := hm.read whole first _ (hms.head rest)
    unfold BracketGrammar.members
    rw [List.append_assoc]
    split
    · next heq =>
      rw [hread] at heq
      cases heq
    · next heq =>
      rw [hread] at heq
      cases heq
    · next heq =>
      rw [hread] at heq
      cases heq
      simp only [hrest]
      rfl

/-- Members between brackets are read as their union. -/
theorem bracket_of_spellsAll {text : List Char} {ms : List Member} (h : SpellsAll text ms)
    (hn : ms ≠ []) (rest : List Char) :
    brackets.read (text ++ ']' :: rest) = .ok (union (ms.map Member.tree), rest) := by
  have hcaret : caret? (text ++ ']' :: rest) = (false, text ++ ']' :: rest) := by
    unfold caret?
    split
    · next heq => exact absurd heq (h.head_ne_caret hn _ _)
    · rfl
  simp only [BracketGrammar.read, hcaret, members_of_spellsAll h _ (fun _ => hn) rest,
    bracketTree_positive]

/-- Members behind a `^` are read as the conjunction of their opposites. -/
theorem negatedBracket_of_spellsAll {text : List Char} {ms : List Member} (h : SpellsAll text ms)
    (hn : ms ≠ []) (rest : List Char) :
    brackets.read ('^' :: text ++ ']' :: rest) =
      .ok (conjunction (ms.map Member.opposite), rest) := by
  simp only [BracketGrammar.read, List.cons_append, caret?,
    members_of_spellsAll h _ (fun _ => hn) rest, bracketTree_negated]

/-! ## What the writer puts between brackets -/

theorem spellsAll_classItems {l : List PosixClass} {text : List Char}
    (h : classItems l = .ok text) : SpellsAll text (l.map fun k => .item (.posix k)) := by
  induction l generalizing text with
  | nil =>
    cases h
    exact .nil
  | cons k l ih =>
    unfold classItems at h
    obtain ⟨item, hk, h⟩ := bind_eq_ok_iff.1 h
    obtain ⟨text', hl, h⟩ := bind_eq_ok_iff.1 h
    cases h
    unfold classItem at hk
    split at hk
    · cases hk
      exact .cons (spells_posix k) (ih hl)
    · cases hk

/-- What is written for a set are its items. -/
theorem spellsAll_setItems {s : CharSet} (hs : ∀ r ∈ s.ranges, r.1 ≤ r.2) {text : List Char}
    (h : setItems s = .ok text) : SpellsAll text (s.items.map .item) := by
  unfold setItems at h
  obtain ⟨classes, hk, h⟩ := bind_eq_ok_iff.1 h
  cases h
  have hchars : SpellsAll (s.chars.flatMap bracketEscaped)
      (s.chars.map fun c => .item (.char c)) := by
    apply spellsAll_flatMap
    intro c _
    exact spells_char (spellsChar_bracketEscaped c)
  have hranges : SpellsAll
      (s.ranges.flatMap fun r => bracketEscaped r.1 ++ '-' :: bracketEscaped r.2)
      (s.ranges.map fun r => .item (.range r.1 r.2)) := by
    apply spellsAll_flatMap
    intro r hr
    exact spells_range (hs r hr) (spellsChar_bracketEscaped _) (spellsChar_bracketEscaped _)
  -- The writer takes them in the order of `items`.
  have hall := (hchars.append hranges).append (spellsAll_classItems hk)
  simpa [CharSet.items, List.map_map, Function.comp_def] using hall

/-- The escape that is written for the complement of a class is read as that. -/
theorem spells_shorthand? {k : PosixClass} {text : List Char} (h : shorthand? true k = some text) :
    Spells text (.except k) := by
  cases k <;> cases h <;> exact spells_shorthand rfl

/-- What is written for a tree between brackets are its members. -/
theorem spellsAll_bracketItem {negated : Bool} {e : Regex} (he : e.Fit orderedDemands)
    {text : List Char} (h : bracketItem negated e = some (.ok text)) :
    SpellsAll text (e.bracketMembers negated) := by
  induction e using inductionOn generalizing negated with
  | complement e ih => exact ih (fit_complement.1 he).2 h
  | set s =>
    unfold bracketMembers
    unfold bracketItem at h
    cases negated with
    | true =>
      cases hk : s.singleClass? with
      | none => simp [hk] at h
      | some k =>
        simp only [hk] at h ⊢
        -- A class is negated by an escape if there is one, else within its name.
        cases ht : shorthand? true k with
        | some t =>
          simp only [if_true, ht, Option.some.injEq, Except.ok.injEq] at h
          exact h ▸ (spells_shorthand? ht).all
        | none =>
          simp only [if_true, ht, Option.some.injEq, classItem] at h
          split at h
          · cases h
            exact (spells_except k).all
          · cases h
    | false =>
      simp only [Bool.false_eq_true, if_false] at h ⊢
      split at h
      · cases h
      · rw [Option.some.injEq] at h
        exact spellsAll_setItems (fit_set.1 he).2 h
  | literal t =>
    unfold bracketItem at h
    split at h <;> try contradiction
    next heq =>
      cases heq
      cases negated <;> cases h
      exact (spells_char (spellsChar_bracketEscaped _)).all
  | primitive p =>
    cases p <;> try cases h
    all_goals
      cases negated <;> exact (spells_shorthand rfl).all
  | syntaxClass k =>
    cases k <;> try cases h
    all_goals
      cases negated <;> exact (spells_shorthand rfl).all
  | _ => cases h

/-- The texts of several trees stand one behind the other. -/
theorem bracketItems_cons_ok {negated : Bool} {e : Regex} {l : List Regex} {text : List Char}
    (h : bracketItems negated (e :: l) = some (.ok text)) :
    ∃ t u, bracketItem negated e = some (.ok t) ∧ bracketItems negated l = some (.ok u) ∧
      text = t ++ u := by
  unfold bracketItems at h
  cases he : bracketItem negated e with
  | none =>
    rw [he] at h
    cases h
  | some r =>
    rw [he] at h
    cases r with
    | error cause => cases h
    | ok t =>
      obtain ⟨r, hr, h⟩ := Option.map_eq_some_iff.1 h
      cases r with
      | error cause => cases h
      | ok u =>
        cases h
        exact ⟨t, u, rfl, hr, rfl⟩

theorem spellsAll_bracketItems {negated : Bool} {l : List Regex}
    (hl : ∀ e ∈ l, e.Fit orderedDemands) {text : List Char}
    (h : bracketItems negated l = some (.ok text)) :
    SpellsAll text (l.flatMap (bracketMembers negated)) := by
  induction l generalizing text with
  | nil =>
    cases h
    exact .nil
  | cons e l ih =>
    obtain ⟨t, u, he, hu, rfl⟩ := bracketItems_cons_ok h
    rw [List.flatMap_cons]
    exact (spellsAll_bracketItem (hl e List.mem_cons_self) he).append
      (ih (fun x hx => hl x (List.mem_cons_of_mem _ hx)) hu)

end RegexDialects.Pattern.Pcre
