import RegexDialects.Proofs.Links
import RegexDialects.Proofs.RoundTrip
import RegexDialects.Proofs.Writable

/-!
# Groups in what is written

No form of output moves a group or a reference. Whatever a tree is written in, its groups and
references stand in the text in the order in which they stand in the tree (`HoldsLinks`), so a
reference still means the same group; of the groups alone this is `HoldsGroups`. And what is read
back from a text in the notation of PCRE has the same groups as the tree that was written
(`captures_readBack`).

Groups and references have no place in brackets and under complements, which is why those can be
written without looking for them there.
-/

set_option autoImplicit false

namespace RegexDialects

/-- The text of a group, given that of its body. -/
def Target.groupText (target : Target) (body : List Char) : List Char :=
  match target with
  | .pcre => '(' :: body ++ [')']
  | .rx | .sre => Form.listForm "submatch" [body]

/-- The text of a reference to group `n`. -/
def Target.referenceText (target : Target) (n : Nat) : List Char :=
  match target with
  | .pcre => '\\' :: decimal n
  | .rx | .sre => Form.listForm "backref" [decimal n]

/-- A text holds the groups and references `l`, in this order. -/
inductive HoldsLinks (target : Target) : List Char → List Regex → Prop
  | none (text : List Char) : HoldsLinks target text []
  | append {t u : List Char} {l m : List Regex} :
      HoldsLinks target t l → HoldsLinks target u m → HoldsLinks target (t ++ u) (l ++ m)
  | group {e : Regex} {body : List Char} {l : List Regex} :
      Form.text target e = .ok body → HoldsLinks target body l →
        HoldsLinks target (target.groupText body) (.group e :: l)
  | reference (n : Nat) : HoldsLinks target (target.referenceText n) [.backref n]

/-- A text holds groups with the bodies `l`, which open in this order. -/
inductive HoldsGroups (target : Target) : List Char → List Regex → Prop
  | none (text : List Char) : HoldsGroups target text []
  | append {t u : List Char} {l m : List Regex} :
      HoldsGroups target t l → HoldsGroups target u m → HoldsGroups target (t ++ u) (l ++ m)
  | group {e : Regex} {body : List Char} {l : List Regex} :
      Form.text target e = .ok body → HoldsGroups target body l →
        HoldsGroups target (target.groupText body) (e :: l)

/-- Without its references, what a text holds are its groups. -/
theorem HoldsLinks.holdsGroups {target : Target} {text : List Char} {l : List Regex}
    (h : HoldsLinks target text l) : HoldsGroups target text (l.filterMap Regex.groupBody?) := by
  induction h with
  | none text => exact .none text
  | append _ _ iht ihu =>
    rw [List.filterMap_append]
    exact .append iht ihu
  | group htext _ ih => exact .group htext ih
  | reference n => exact .none _

namespace HoldsLinks

variable {target : Target} {text : List Char} {l m : List Regex}

/-- Text in front holds nothing that counts. -/
theorem behind (h : HoldsLinks target text l) (t : List Char) :
    HoldsLinks target (t ++ text) l :=
  (HoldsLinks.none t).append h

theorem before (h : HoldsLinks target text l) (t : List Char) :
    HoldsLinks target (text ++ t) l := by
  have happend := h.append (.none t)
  rwa [List.append_nil] at happend

/-! ## Lists -/

/-- Items that hold nothing in front of the others. -/
theorem item (t : List Char) {items : List (List Char)}
    (h : HoldsLinks target (Form.spaced items) l) :
    HoldsLinks target (Form.spaced (t :: items)) l :=
  h.behind (' ' :: t)

/-- What the first item holds comes before what the others hold. -/
theorem items {t : List Char} {items : List (List Char)} (h : HoldsLinks target t l)
    (hs : HoldsLinks target (Form.spaced items) m) :
    HoldsLinks target (Form.spaced (t :: items)) (l ++ m) :=
  (h.behind [' ']).append hs

theorem last (h : HoldsLinks target text l) : HoldsLinks target (Form.spaced [text]) l :=
  (h.behind [' ']).before []

/-- The head of a list and its parentheses hold nothing. -/
theorem listForm (head : String) {items : List (List Char)}
    (h : HoldsLinks target (Form.spaced items) l) :
    HoldsLinks target (Form.listForm head items) l :=
  (h.behind ('(' :: head.toList)).before [')']

/-- If the text of each tree holds the links of the tree, so do the texts of all of them. -/
theorem mapM {render : Regex → Except Unwritable (List Char)} {l : List Regex}
    {items : List (List Char)}
    (hl : ∀ e ∈ l, ∀ text, render e = .ok text → HoldsLinks target text e.links)
    (h : l.mapM render = .ok items) :
    HoldsLinks target (Form.spaced items) (l.flatMap Regex.links) := by
  induction l generalizing items with
  | nil =>
    cases h
    exact .none []
  | cons e l ih =>
    obtain ⟨text, rest, he, hrest, rfl⟩ := mapM_cons_eq_ok_iff.1 h
    exact (hl e List.mem_cons_self text he).items
      (ih (fun x hx => hl x (List.mem_cons_of_mem _ hx)) hrest)

end HoldsLinks

namespace Form

open Regex

/-! ## The Lisp forms -/

section Rx

open Rx

/-- An operator and the bounds behind it hold nothing. -/
theorem holdsLinks_greedyForm (least : Nat) (most : Option Nat) {body : List Char}
    {l : List Regex} (h : HoldsLinks .rx body l) :
    HoldsLinks .rx (greedyForm least most body) l := by
  unfold greedyForm
  split
  · exact h.last.listForm _
  · exact h.last.listForm _
  · exact h.last.listForm _
  · exact (h.last.item _).listForm _
  · split
    · exact (h.last.item _).listForm _
    · exact ((h.last.item _).item _).listForm _

theorem holdsLinks_lazyForm {least : Nat} {most : Option Nat} {body text : List Char}
    {l : List Regex} (h : HoldsLinks .rx body l) (ht : lazyForm least most body = .ok text) :
    HoldsLinks .rx text l := by
  unfold lazyForm at ht
  split at ht
  · cases ht
    exact h.last.listForm _
  · cases ht
    exact h.last.listForm _
  · cases ht
    exact h.last.listForm _
  · split at ht
    · cases ht
      exact holdsLinks_greedyForm _ _ h
    · cases ht
  · cases ht

theorem Rx.renderAll_eq_mapM (l : List Regex) : renderAll l = l.mapM render := by
  induction l with
  | nil => rfl
  | cons e l ih => rw [renderAll, List.mapM_cons, ih]

/-- The groups and references of a tree stand in its `rx` form in their order. -/
theorem Rx.holdsLinks_render {e : Regex} {text : List Char} (h : render e = .ok text) :
    HoldsLinks .rx text e.links := by
  induction e using inductionOn generalizing text with
  | sequence l ih =>
    obtain ⟨items, hitems, h⟩ := bind_eq_ok_iff.1 h
    cases h
    rw [links_sequence]
    exact (HoldsLinks.mapM (fun e he _ => ih e he) (Rx.renderAll_eq_mapM l ▸ hitems)).listForm _
  | choice l ih =>
    obtain ⟨items, hitems, h⟩ := bind_eq_ok_iff.1 h
    cases h
    rw [links_choice]
    exact (HoldsLinks.mapM (fun e he _ => ih e he) (Rx.renderAll_eq_mapM l ▸ hitems)).listForm _
  | repetition n m g e ih =>
    obtain ⟨body, hbody, h⟩ := bind_eq_ok_iff.1 h
    split at h
    · cases h
      exact holdsLinks_greedyForm n m (ih hbody)
    · exact holdsLinks_lazyForm (ih hbody) h
  | group e ih =>
    obtain ⟨body, hbody, h⟩ := bind_eq_ok_iff.1 h
    cases h
    exact .group hbody (ih hbody)
  | complement e ih =>
    -- A set is written together with its complement.
    cases e with
    | set s => exact .none text
    | _ =>
      obtain ⟨body, hbody, h⟩ := bind_eq_ok_iff.1 h
      cases h
      exact (ih hbody).last.listForm _
  | intersection l _ => cases h
  | backref n =>
    cases h
    exact .reference n
  | _ => exact .none text

end Rx

section Sre

open Sre

theorem holdsLinks_repetition (least : Nat) (most : Option Nat) {body : List Char}
    {l : List Regex} (h : HoldsLinks .sre body l) :
    HoldsLinks .sre (Sre.repetition least most body) l := by
  unfold Sre.repetition
  split
  · exact h.last.listForm _
  · exact h.last.listForm _
  · exact h.last.listForm _
  · exact (h.last.item _).listForm _
  · split
    · exact (h.last.item _).listForm _
    · exact ((h.last.item _).item _).listForm _

theorem Sre.renderAll_eq_mapM (l : List Regex) : renderAll l = l.mapM render := by
  induction l with
  | nil => rfl
  | cons e l ih => rw [renderAll, List.mapM_cons, ih]

/-- The groups and references of a tree stand in its SRE form in their order. -/
theorem Sre.holdsLinks_render {e : Regex} {text : List Char} (h : render e = .ok text) :
    HoldsLinks .sre text e.links := by
  induction e using inductionOn generalizing text with
  | sequence l ih =>
    obtain ⟨items, hitems, h⟩ := bind_eq_ok_iff.1 h
    cases h
    rw [links_sequence]
    exact (HoldsLinks.mapM (fun e he _ => ih e he) (Sre.renderAll_eq_mapM l ▸ hitems)).listForm _
  | choice l ih =>
    obtain ⟨items, hitems, h⟩ := bind_eq_ok_iff.1 h
    cases h
    rw [links_choice]
    exact (HoldsLinks.mapM (fun e he _ => ih e he) (Sre.renderAll_eq_mapM l ▸ hitems)).listForm _
  | repetition n m g e ih =>
    unfold render at h
    split at h
    · obtain ⟨body, hbody, h⟩ := bind_eq_ok_iff.1 h
      cases h
      exact holdsLinks_repetition n m (ih hbody)
    · cases h
  | group e ih =>
    obtain ⟨body, hbody, h⟩ := bind_eq_ok_iff.1 h
    cases h
    exact .group hbody (ih hbody)
  | complement e ih =>
    obtain ⟨body, hbody, h⟩ := bind_eq_ok_iff.1 h
    cases h
    exact (ih hbody).last.listForm _
  | intersection l ih =>
    obtain ⟨items, hitems, h⟩ := bind_eq_ok_iff.1 h
    cases h
    rw [links_intersection]
    exact (HoldsLinks.mapM (fun e he _ => ih e he) (Sre.renderAll_eq_mapM l ▸ hitems)).listForm _
  | backref n =>
    cases h
    exact .reference n
  | _ => exact .none text

end Sre

end Form

namespace Regex

open Form.Pcre

/-! ## Brackets and complements -/

/-- Groups and references have no place in brackets. -/
theorem links_of_bracketItem {negated : Bool} {e : Regex}
    {item : Except Unwritable (List Char)} (h : bracketItem negated e = some item) :
    e.links = [] := by
  induction e using inductionOn generalizing negated with
  | complement e ih => exact ih h
  | sequence l _ => cases h
  | choice l _ => cases h
  | repetition n m g e _ => cases h
  | group e _ => cases h
  | intersection l _ => cases h
  | backref n => cases h
  | _ => rfl

theorem links_of_bracketItems {negated : Bool} {l : List Regex} {text : List Char}
    (h : bracketItems negated l = some (.ok text)) : l.flatMap links = [] := by
  rw [List.flatMap_eq_nil_iff]
  intro e he
  obtain ⟨t, ht⟩ := bracketItem_of_bracketItems h he
  exact links_of_bracketItem ht

/-- Only complements of sets and of classes are written. -/
theorem links_of_renderComplement {e : Regex} {r : Rendered}
    (h : renderComplement e = .ok r) : e.links = [] := by
  cases e with
  | set s => rfl
  | syntaxClass k => rfl
  | _ => cases h

end Regex

namespace Form

section Pcre

open Regex Pcre

/-! ## The PCRE form -/

theorem holdsLinks_shyGroup {text : List Char} {l : List Regex}
    (h : HoldsLinks .pcre text l) : HoldsLinks .pcre (shyGroup text) l :=
  (h.behind ['(', '?', ':']).before [')']

theorem holdsLinks_atMost {r : Rendered} {l : List Regex} (h : HoldsLinks .pcre r.text l)
    (limit : Level) : HoldsLinks .pcre (r.atMost limit) l := by
  unfold Rendered.atMost
  split
  · exact holdsLinks_shyGroup h
  · exact h

section Lists

variable {l : List Regex} {rs : List Rendered}

/-- Parts that stand one behind the other. A part may need a group around it that captures nothing,
    which depends on the next one. -/
theorem holdsLinks_joinParts
    (hl : ∀ e ∈ l, ∀ r, render e = .ok r → HoldsLinks .pcre r.text e.links)
    (h : renderAll l = .ok rs) :
    HoldsLinks .pcre (joinParts (partTexts l rs)) (l.flatMap links) := by
  induction l generalizing rs with
  | nil =>
    cases h
    exact .none []
  | cons e l ih =>
    obtain ⟨r, rs, he, hrs, rfl⟩ := renderAll_cons h
    have hr := holdsLinks_atMost (hl e List.mem_cons_self r he) .branch
    have hrest := ih (fun x hx => hl x (List.mem_cons_of_mem _ hx)) hrs
    rw [List.flatMap_cons]
    cases l with
    | nil =>
      cases hrs
      rw [List.flatMap_nil, List.append_nil]
      exact hr
    | cons e' l =>
      obtain ⟨r', rs, -, -, rfl⟩ := renderAll_cons hrs
      rw [joinParts_partTexts]
      refine HoldsLinks.append ?_ hrest
      split
      · exact holdsLinks_shyGroup hr
      · exact hr

/-- Branches with bars between them. -/
theorem holdsLinks_intercalate
    (hl : ∀ e ∈ l, ∀ r, render e = .ok r → HoldsLinks .pcre r.text e.links)
    (h : renderAll l = .ok rs) :
    HoldsLinks .pcre (['|'].intercalate (rs.map (·.atMost .branch))) (l.flatMap links) := by
  induction l generalizing rs with
  | nil =>
    cases h
    exact .none []
  | cons e l ih =>
    obtain ⟨r, rs, he, hrs, rfl⟩ := renderAll_cons h
    have hr := holdsLinks_atMost (hl e List.mem_cons_self r he) .branch
    have hrest := ih (fun x hx => hl x (List.mem_cons_of_mem _ hx)) hrs
    rw [List.flatMap_cons]
    cases l with
    | nil =>
      cases hrs
      rw [intercalate_branch, List.flatMap_nil, List.append_nil]
      exact hr
    | cons e' l =>
      obtain ⟨r', rs, -, -, rfl⟩ := renderAll_cons hrs
      have htext : ['|'].intercalate ((r :: r' :: rs).map (·.atMost .branch)) =
          r.atMost .branch ++ '|' :: ['|'].intercalate ((r' :: rs).map (·.atMost .branch)) :=
        intercalate_bar _ _ _
      rw [htext]
      exact hr.append (hrest.behind ['|'])

end Lists

/-- The groups and references of a tree stand in its PCRE form in their order. -/
theorem Pcre.holdsLinks_render {e : Regex} {r : Rendered} (h : render e = .ok r) :
    HoldsLinks .pcre r.text e.links := by
  induction e using inductionOn generalizing r with
  | sequence l ih =>
    obtain ⟨rs, hrs, h⟩ := bind_eq_ok_iff.1 h
    cases h
    rw [links_sequence]
    exact holdsLinks_joinParts (fun e he _ => ih e he) hrs
  | choice l ih =>
    rw [links_choice]
    unfold render at h
    split at h
    · next items hitems =>
      -- What is written as a bracket has no links.
      obtain ⟨text, rfl, rfl⟩ := map_eq_ok_iff.1 h
      rw [links_of_bracketItems hitems]
      exact .none _
    · obtain ⟨rs, hrs, h⟩ := bind_eq_ok_iff.1 h
      cases h
      exact holdsLinks_intercalate (fun e he _ => ih e he) hrs
  | repetition n m g e ih =>
    obtain ⟨inner, hinner, h⟩ := bind_eq_ok_iff.1 h
    cases h
    have hbody := ih hinner
    have htext : HoldsLinks .pcre
        (if isRepetition e then shyGroup inner.text else inner.atMost .piece) e.links := by
      split
      · exact holdsLinks_shyGroup hbody
      · exact holdsLinks_atMost hbody .piece
    -- Behind the body stand its bounds, and the mark of a lazy repetition.
    exact (htext.before _).before _
  | group e ih =>
    obtain ⟨inner, hinner, h⟩ := bind_eq_ok_iff.1 h
    cases h
    have htext : Form.text .pcre e = .ok inner.text := by
      show (Form.Pcre.render e).map (·.text) = _
      rw [hinner]
      rfl
    exact .group htext (ih hinner)
  | complement e _ =>
    rw [links_complement, links_of_renderComplement h]
    exact .none r.text
  | intersection l _ =>
    rw [links_intersection]
    unfold render at h
    split at h
    · next items hitems =>
      obtain ⟨text, rfl, rfl⟩ := map_eq_ok_iff.1 h
      rw [links_of_bracketItems hitems]
      exact .none _
    · cases h
  | backref n =>
    unfold render at h
    split at h
    · cases h
    · cases h
      exact .reference n
  | _ => exact .none r.text

end Pcre

end Form

namespace Regex

open Form.Pcre

/-- **In no form of output a group or a reference moves.** -/
theorem holdsLinks_of_render {target : Target} {e : Regex} {text : String}
    (h : e.render target = .ok text) : HoldsLinks target text.toList e.links := by
  unfold render at h
  split at h
  · next t ht =>
    cases h
    rw [String.toList_ofList]
    cases target with
    | pcre =>
      obtain ⟨r, hr, rfl⟩ := map_eq_ok_iff.1 ht
      exact Form.Pcre.holdsLinks_render hr
    | rx => exact Form.Rx.holdsLinks_render ht
    | sre => exact Form.Sre.holdsLinks_render ht
  · cases h

theorem holdsGroups_of_render {target : Target} {e : Regex} {text : String}
    (h : e.render target = .ok text) : HoldsGroups target text.toList e.captures := by
  rw [captures_eq_filterMap_links]
  exact (holdsLinks_of_render h).holdsGroups

/-! ## Reading back -/

theorem captures_of_bracketItems {negated : Bool} {l : List Regex} {text : List Char}
    (h : bracketItems negated l = some (.ok text)) : l.flatMap captures = [] := by
  have hl := links_of_bracketItems h
  rw [List.flatMap_eq_nil_iff] at hl ⊢
  intro e he
  exact captures_of_links (hl e he)

theorem captures_bracketUnion (l : List Regex) : (bracketUnion l).captures = [] :=
  captures_of_marks (Pattern.marks_union_members _)

theorem captures_bracketExclusion (l : List Regex) : (bracketExclusion l).captures = [] :=
  captures_of_marks (Pattern.marks_conjunction_members _)

theorem captures_readBackSet (s : CharSet) : (readBackSet s).captures = [] := by
  unfold readBackSet
  split
  · rfl
  · split
    · rfl
    · split <;> rfl

/-- A complement is read back as what matches the same, or with its body. Only the latter can have
    groups, and keeps them. -/
theorem captures_readBackComplement (e : Regex) :
    (readBackComplement e).captures = e.captures := by
  unfold readBackComplement
  split
  · split
    · rfl
    · split <;> rfl
  · rfl
  · rfl
  · rfl

/-- **What is written and read back keeps its groups, and their order.** -/
theorem captures_readBack {e : Regex} (h : e.Writable) :
    e.readBack.captures = e.captures.map readBack := by
  induction e using inductionOn with
  | sequence l ih =>
    rw [readBack, readBackAll_eq_map, captures_seq, captures_sequence, List.flatMap_map,
      List.map_flatMap]
    exact List.flatMap_congr fun e he => ih e he (writable_sequence.1 h e he)
  | choice l ih =>
    rw [readBack, captures_choice]
    rcases writable_choice.1 h with ⟨hb, text, htext⟩ | ⟨hb, hall⟩
    -- A choice in brackets has no groups, before as after.
    · rw [if_pos hb, captures_bracketUnion, captures_of_bracketItems htext]
      rfl
    · rw [if_neg (Bool.eq_false_iff.1 hb), readBackAll_eq_map, captures_alt, List.flatMap_map,
        List.map_flatMap]
      exact List.flatMap_congr fun e he => ih e he (hall e he)
  | repetition n m g e ih => exact ih (writable_repetition.1 h)
  | group e ih =>
    rw [readBack, captures_group, captures_group, ih (writable_group.1 h), List.map_cons]
  | syntaxClass k => cases k <;> rfl
  | set s => exact captures_readBackSet s
  | complement e _ =>
    obtain ⟨r, hr⟩ := h
    have he := captures_of_links (links_of_renderComplement hr)
    rw [readBack, captures_readBackComplement, captures_complement, he]
    rfl
  | intersection l _ =>
    obtain ⟨text, htext⟩ := writable_intersection.1 h
    rw [readBack, captures_bracketExclusion, captures_intersection, captures_of_bracketItems htext]
    rfl
  | _ => rfl

end Regex

end RegexDialects
