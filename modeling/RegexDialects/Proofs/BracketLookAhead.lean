import Mathlib.Data.List.TakeWhile
import RegexDialects.Proofs.LookAhead

/-!
# Looking ahead inside brackets

A bracket expression that is complete is read the same way whatever stands behind it: the reader
sees the closing bracket before it can get that far. So the lemmas on members ask that a closing
bracket is still to come, and `mem_of_members` provides it.

How an item is read is for the dialect to say, and whether it could go on into the text behind
(`LocalIn`), which it might if nothing were left of the expression.
-/

set_option autoImplicit false

namespace RegexDialects.Pattern

variable {tail : List Char}

/-! ## Names of classes -/

/-- Behind `[:` a name ends before the bracket expression does. -/
theorem readName_append {negatable : Bool} {body : List Char} {r : Option (Regex × List Char)}
    (hb : ']' ∈ body) (h : readClass? negatable ('[' :: ':' :: body) = .ok r) :
    readClass? negatable ('[' :: ':' :: (body ++ tail)) =
      .ok (r.map fun x => (x.1, x.2 ++ tail)) := by
  -- The characters that may stand in a name end at the bracket, if not before.
  have hne : body.dropWhile isClassNameChar ≠ [] := by
    intro hn
    exact Bool.false_ne_true (List.dropWhile_eq_nil_iff.1 hn ']' hb)
  have hdrop : (body ++ tail).dropWhile isClassNameChar =
      body.dropWhile isClassNameChar ++ tail := by
    rw [List.dropWhile_append, if_neg (by simpa using hne)]
  have htake : (body ++ tail).takeWhile isClassNameChar = body.takeWhile isClassNameChar := by
    rw [List.takeWhile_append, if_neg]
    intro hlen
    apply hne
    have hall := List.takeWhile_append_dropWhile (p := isClassNameChar) (l := body)
    have := congrArg List.length hall
    rw [List.length_append] at this
    exact List.length_eq_zero_iff.1 (by omega)
  -- So behind the name there is the closing bracket at least, and a name is complete or none.
  have hmem : ∀ c, body.dropWhile isClassNameChar = [c] → c = ']' := by
    intro c hc
    have hall := List.takeWhile_append_dropWhile (p := isClassNameChar) (l := body)
    rw [hc] at hall
    rw [← hall] at hb
    rcases List.mem_append.1 hb with hb | hb
    · cases List.mem_takeWhile_imp hb
    · exact (List.mem_singleton.1 hb).symm
  unfold readClass? at h ⊢
  simp only [hdrop, htake] at h ⊢
  split at h
  · next rest hd =>
    rw [hd]
    simp only [List.cons_append]
    split at h
    · cases h
      rfl
    · cases h
  · next hd =>
    cases h
    split
    · next rest heq =>
      match hx : body.dropWhile isClassNameChar with
      | [] => exact absurd hx hne
      | [c] =>
        rw [hx, hmem c hx] at heq
        cases heq
      | c :: d :: l =>
        rw [hx] at heq
        cases heq
        exact (hd _ hx).elim
    · rfl

/-- The name of a class ends before a bracket expression does. -/
theorem readClass?_append {negatable : Bool} {text : List Char} {r : Option (Regex × List Char)}
    (hb : ']' ∈ text) (h : readClass? negatable text = .ok r) :
    readClass? negatable (text ++ tail) = .ok (r.map fun x => (x.1, x.2 ++ tail)) := by
  -- Two characters decide whether there is a name at all.
  match text with
  | [] => exact absurd hb List.not_mem_nil
  | c :: text =>
    by_cases hc : c = '['
    · subst hc
      match text with
      | [] => cases List.mem_singleton.1 hb
      | d :: body =>
        by_cases hd : d = ':'
        · subst hd
          have hbody : ']' ∈ body := by
            rcases List.mem_cons.1 hb with hb | hb
            · cases hb
            · rcases List.mem_cons.1 hb with hb | hb
              · cases hb
              · exact hb
          exact readName_append hbody h
        · by_cases hdot : d = '.'
          · subst hdot
            cases h
          · by_cases heq : d = '='
            · subst heq
              cases h
            -- No other character behind a bracket begins a name.
            · have hnone : ∀ l, readClass? negatable ('[' :: d :: l) = .ok none := by
                intro l
                unfold readClass?
                split
                · next h => exact absurd (List.cons.inj (List.cons.inj h).2).1 hdot
                · next h => exact absurd (List.cons.inj (List.cons.inj h).2).1 heq
                · next h => exact absurd (List.cons.inj (List.cons.inj h).2).1 hd
                · rfl
              rw [hnone] at h
              cases h
              exact hnone _
    · have hnone : ∀ l, readClass? negatable (c :: l) = .ok none := by
        intro l
        apply Pcre.readClass?_of_ne
        intro x hx
        cases hx
        exact hc
      rw [hnone] at h
      cases h
      exact hnone _

namespace BracketGrammar

/-! ## Members -/

variable {g : BracketGrammar} {body : List Char}

/-- Whether every item of `body` that leaves something of it is read the same way with `tail` behind
    the body. -/
def LocalIn (g : BracketGrammar) (body tail : List Char) : Prop :=
  ∀ {whole whole' text rest a}, text <:+ body → rest ≠ [] → g.atom whole text = .ok (a, rest) →
    g.atom whole' (text ++ tail) = .ok (a, rest ++ tail)

/-- Whether a hyphen makes a range is settled before the bracket expression closes. -/
theorem item_append (hg : g.LocalIn body tail) (whole' : List Char) {whole text rest : List Char}
    {e : Regex} (hs : text <:+ body) (hb : ']' ∈ rest)
    (h : g.item whole text = .ok (e, rest)) :
    g.item whole' (text ++ tail) = .ok (e, rest ++ tail) := by
  have hne : ∀ {mid}, rest <:+ mid → mid ≠ [] := fun hr => List.ne_nil_of_mem (hr.mem hb)
  unfold item at h ⊢
  split at h
  · cases h
  · next ha =>
    cases h
    rw [hg hs (hne (List.suffix_refl _)) ha]
  · next lo mid ha =>
    have hmid := (g.atom_advances ha).1.trans hs
    -- A character. It begins a range if a hyphen stands behind it that is not the last member.
    split at h
    · next c after =>
      rw [hg hs (List.cons_ne_nil _ _) ha]
      simp only [List.cons_append]
      split at h
      · next hc =>
        cases h
        rw [if_pos hc]
        rfl
      · next hc =>
        rw [if_neg hc]
        unfold rangeEnd at h ⊢
        split at h
        · cases h
        · next hi rest' hhi =>
          split at h
          · next hle =>
            cases h
            rw [← List.cons_append,
              hg ((List.suffix_cons _ _).trans hmid) (hne (List.suffix_refl _)) hhi]
            simp only [if_pos hle]
          · cases h
        · cases h
    · next hn =>
      cases h
      simp only [hg hs (hne (List.suffix_refl _)) ha]
      split
      · next heq =>
        -- Something stands behind the hyphen, for the bracket closes later.
        match rest, hb, heq with
        | [c], hb, heq =>
          cases heq
          cases List.mem_singleton.1 hb
        | c :: d :: l, _, heq =>
          cases heq
          exact (hn _ _ rfl).elim
      · rfl

/-- A member is read the same way. That the expression ends needs no bracket behind the end. -/
theorem member?_append (hg : g.LocalIn body tail) (whole' : List Char)
    {whole text rest : List Char} {first : Bool} {o : Option Regex} (hs : text <:+ body)
    (hb : o.isSome = true → ']' ∈ rest) (h : g.member? whole first text = .ok (o, rest)) :
    g.member? whole' first (text ++ tail) = .ok (o, rest ++ tail) := by
  have hsuffix := (g.member?_advances h).1
  cases text with
  | nil => cases h
  | cons c text =>
    rw [List.cons_append]
    simp only [member?] at h ⊢
    split at h
    · next hc =>
      cases h
      rw [if_pos hc]
    · next hc =>
      rw [if_neg hc, ← List.cons_append]
      split at h
      · cases h
      · next hr =>
        cases h
        rw [readClass?_append (hsuffix.mem (hb rfl)) hr]
        rfl
      · next hr =>
        split at h
        · cases h
        · next hi =>
          cases h
          rw [readClass?_append (hsuffix.mem (hb rfl)) hr]
          simp only [Option.map_none, item_append hg whole' hs (hb rfl) hi]

/-- Members are read up to a closing bracket. -/
theorem mem_of_members {whole text rest : List Char} {first : Bool} {l : List Regex}
    (h : g.members whole first text = .ok (l, rest)) : ']' ∈ text := by
  induction hn : text.length using Nat.strongRecOn generalizing first text l rest with
  | _ n ih =>
    unfold members at h
    split at h
    · cases h
    · next hm =>
      unfold member? at hm
      split at hm
      · cases hm
      · split at hm
        · next hc => exact hc.1 ▸ List.mem_cons_self
        · split at hm
          · cases hm
          · cases hm
          · split at hm <;> cases hm
    · next hm =>
      have a := g.member?_advances hm
      split at h
      · cases h
      · next hl => exact a.1.mem (ih _ (hn ▸ a.2) hl rfl)

/-- All members are read the same way: each of them is followed by the closing bracket somewhere. -/
theorem members_append (hg : g.LocalIn body tail) (whole' : List Char)
    {whole text rest : List Char} {first : Bool} {l : List Regex} (hs : text <:+ body)
    (h : g.members whole first text = .ok (l, rest)) :
    g.members whole' first (text ++ tail) = .ok (l, rest ++ tail) := by
  induction hn : text.length using Nat.strongRecOn generalizing first text l rest with
  | _ n ih =>
    rw [members_eq] at h ⊢
    split at h
    · cases h
    · next hm =>
      cases h
      have hend : g.member? whole' first (text ++ tail) = .ok (none, rest ++ tail) :=
        member?_append hg whole' hs nofun hm
      rw [hend]
    · next hm =>
      have a := g.member?_advances hm
      split at h
      · cases h
      · next hl =>
        cases h
        rw [member?_append hg whole' hs (fun _ => mem_of_members hl) hm]
        simp only [ih _ (hn ▸ a.2) (a.1.trans hs) hl rfl]

theorem caret?_append {text : List Char} (h : text ≠ []) :
    caret? (text ++ tail) = ((caret? text).1, (caret? text).2 ++ tail) := by
  cases text with
  | nil => exact absurd rfl h
  | cons c text =>
    by_cases hc : c = '^'
    · subst hc
      rfl
    · simp [caret?, hc]

/-- A bracket expression is read the same way whatever stands behind it, if its items are. -/
theorem read_append {text rest : List Char} {e : Regex} (hg : g.LocalIn text tail)
    (h : g.read text = .ok (e, rest)) : g.read (text ++ tail) = .ok (e, rest ++ tail) := by
  have hne : text ≠ [] := List.ne_nil_of_length_pos (Nat.zero_lt_of_lt (read_advances h).2)
  simp only [read] at h ⊢
  rw [caret?_append hne]
  split at h
  · cases h
  · next hl =>
    simp only [members_append hg _ (caret?_suffix text) hl]
    split at h
    · cases h
    · cases h
      rfl

end BracketGrammar

namespace Pcre

/-! ## Items of PCRE -/

/-- An escape in brackets is read the same way, unless its digits could go on behind the
    expression. -/
theorem bracketEscape_append (hends : EndsNumber tail) (whole' : List Char)
    {whole text rest : List Char} {a : BracketAtom} (hs : Separated rest tail)
    (h : bracketEscape whole text = .ok (a, rest)) :
    bracketEscape whole' (text ++ tail) = .ok (a, rest ++ tail) := by
  cases text with
  | nil => cases h
  | cons c text =>
    rw [List.cons_append]
    unfold bracketEscape at h ⊢
    simp only at h ⊢
    split at h
    · cases h
      rfl
    · split at h
      · next hb =>
        cases h
        simp only [if_pos hb]
      · next hb =>
        simp only [if_neg hb]
        split at h
        · next ho =>
          cases h
          rw [if_pos ho, ← List.cons_append, octalChar_append hends.digit]
        · next ho =>
          rw [if_neg ho]
          split at h
          · next h89 =>
            cases h
            rw [if_pos h89]
          · next h89 =>
            rw [if_neg h89]
            split at h
            · cases h
            · next he =>
              cases h
              rw [escapedChar_append _ hs he]

theorem bracketAtom_append (hends : EndsNumber tail) (whole' : List Char)
    {whole text rest : List Char} {a : BracketAtom} (hs : Separated rest tail)
    (h : bracketAtom whole text = .ok (a, rest)) :
    bracketAtom whole' (text ++ tail) = .ok (a, rest ++ tail) := by
  cases text with
  | nil => cases h
  | cons c text =>
    by_cases hc : c = '\\'
    · subst hc
      exact bracketEscape_append hends _ hs h
    -- Without a backslash the item is the character itself.
    · have heq : ∀ whole l, bracketAtom whole (c :: l) = .ok (.char c, l) := by
        intro whole l
        unfold bracketAtom
        split
        · next h => cases h
        · next h => exact absurd (List.cons.inj h).1 hc
        · next h =>
          cases h
          rfl
      rw [heq] at h
      cases h
      exact heq _ _

/-- A bracket expression is complete before the text behind it begins. -/
theorem brackets_append (hends : EndsNumber tail) {text rest : List Char} {e : Regex}
    (h : brackets.read text = .ok (e, rest)) :
    brackets.read (text ++ tail) = .ok (e, rest ++ tail) :=
  BracketGrammar.read_append
    (fun _ hne ha => bracketAtom_append hends _ (fun hnil => absurd hnil hne) ha) h

end Pcre

end RegexDialects.Pattern
