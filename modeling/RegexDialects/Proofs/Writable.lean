import RegexDialects.Dialect
import RegexDialects.Proofs.BracketSpelling

/-!
# Trees that can be written

Which trees have a text in the notation of PCRE (`Writable`), taken apart along the tree. A tree
with parts can be written if its parts can be; where it is a bracket expression, only what the parts
contribute to that counts.
-/

set_option autoImplicit false

namespace RegexDialects.Form.Pcre

/-- Trees are written one after the other, and the first that cannot be stops it. -/
theorem renderAll_cons {e : Regex} {l : List Regex} {rs : List Rendered}
    (h : renderAll (e :: l) = .ok rs) :
    ∃ r rs', render e = .ok r ∧ renderAll l = .ok rs' ∧ rs = r :: rs' := by
  unfold renderAll at h
  obtain ⟨r, he, h⟩ := bind_eq_ok_iff.1 h
  obtain ⟨rs', hl, h⟩ := bind_eq_ok_iff.1 h
  cases h
  exact ⟨r, rs', he, hl, rfl⟩

end RegexDialects.Form.Pcre

namespace RegexDialects.Regex

open Form.Pcre

/-- Whether a tree can be written in the notation of PCRE. -/
def Writable (e : Regex) : Prop :=
  ∃ r, Form.Pcre.render e = .ok r

/-- What has a text can be written: nothing else is done to it than to put it into a string. -/
theorem writable_of_render {e : Regex} {text : String} (h : e.render .pcre = .ok text) :
    e.Writable := by
  unfold render at h
  split at h
  · next l hl =>
    obtain ⟨r, hr, -⟩ := map_eq_ok_iff.1 hl
    exact ⟨r, hr⟩
  · cases h

theorem Writable.render {e : Regex} (h : e.Writable) : ∃ text, e.render .pcre = .ok text := by
  obtain ⟨r, hr⟩ := h
  have htext : Form.text .pcre e = .ok r.text := by
    show (Form.Pcre.render e).map (·.text) = _
    rw [hr]
    rfl
  refine ⟨String.ofList r.text, ?_⟩
  unfold Regex.render
  rw [htext]

/-- A list can be written if each of its trees can, whatever the others are. -/
theorem renderAll_ok_iff {l : List Regex} :
    (∃ rs, renderAll l = .ok rs) ↔ ∀ e ∈ l, e.Writable := by
  induction l with
  | nil => exact ⟨fun _ _ h => absurd h List.not_mem_nil, fun _ => ⟨[], rfl⟩⟩
  | cons e l ih =>
    constructor
    · -- The texts of a list are those of its trees, in order.
      rintro ⟨rs, h⟩
      obtain ⟨r, rs', he, hl, -⟩ := renderAll_cons h
      intro x hx
      rcases List.mem_cons.1 hx with rfl | hx
      · exact ⟨r, he⟩
      · exact ih.1 ⟨rs', hl⟩ x hx
    · intro h
      obtain ⟨r, hr⟩ := h e List.mem_cons_self
      have hl : ∀ x ∈ l, x.Writable := by
        intro x hx
        exact h x (List.mem_cons_of_mem _ hx)
      obtain ⟨rs, hrs⟩ := ih.2 hl
      refine ⟨r :: rs, ?_⟩
      show (do return (← Form.Pcre.render e) :: (← renderAll l)) = Except.ok (r :: rs)
      rw [hr, hrs]
      rfl

theorem writable_sequence {l : List Regex} :
    (sequence l).Writable ↔ ∀ e ∈ l, e.Writable := by
  rw [← renderAll_ok_iff]
  exact exists_bind_eq_ok_iff

theorem writable_repetition {n : Nat} {m : Option Nat} {g : Bool} {e : Regex} :
    (repetition n m g e).Writable ↔ e.Writable :=
  exists_bind_eq_ok_iff

theorem writable_group {e : Regex} : (group e).Writable ↔ e.Writable :=
  exists_bind_eq_ok_iff

/-- A choice is written as a bracket expression, or branch by branch. -/
theorem writable_choice {l : List Regex} :
    (choice l).Writable ↔
      (isBracketed l = true ∧ ∃ text, bracketItems false l = some (.ok text)) ∨
        isBracketed l = false ∧ ∀ e ∈ l, e.Writable := by
  rw [← renderAll_ok_iff, isBracketed]
  cases hb : bracketItems false l with
  | none =>
    -- A part that is no class of characters is written as a branch, and the others with it.
    have hrender : Form.Pcre.render (.choice l) = (renderAll l >>= fun rendered =>
        .ok ⟨['|'].intercalate (rendered.map (·.atMost .branch)), .top⟩) := by
      rw [Form.Pcre.render, hb]
      rfl
    rw [Writable, hrender, exists_bind_eq_ok_iff]
    simp
  | some items =>
    have hrender : Form.Pcre.render (.choice l) = items.map bracket := by
      rw [Form.Pcre.render, hb]
    rw [Writable, hrender, exists_map_eq_ok_iff]
    simp

/-- An intersection is written as one negated bracket expression, or not at all. -/
theorem writable_intersection {l : List Regex} :
    (intersection l).Writable ↔ ∃ text, bracketItems true l = some (.ok text) := by
  cases hb : bracketItems true l with
  | none =>
    -- There are no branches to fall back on.
    have hrender : Form.Pcre.render (.intersection l) = .error .intersection := by
      rw [Form.Pcre.render, hb]
    rw [Writable, hrender]
    simp
  | some items =>
    have hrender : Form.Pcre.render (.intersection l) = items.map negatedBracket := by
      rw [Form.Pcre.render, hb]
    rw [Writable, hrender, exists_map_eq_ok_iff]
    simp

/-- In a bracket expression that can be written, each part contributes a text of its own. -/
theorem bracketItem_of_bracketItems {negated : Bool} {l : List Regex} {text : List Char}
    (h : bracketItems negated l = some (.ok text)) {e : Regex} (he : e ∈ l) :
    ∃ t, bracketItem negated e = some (.ok t) := by
  induction l generalizing text with
  | nil => exact absurd he List.not_mem_nil
  | cons x l ih =>
    obtain ⟨t, u, hx, hu, -⟩ := Pattern.Pcre.bracketItems_cons_ok h
    rcases List.mem_cons.1 he with rfl | he
    · exact ⟨t, hx⟩
    · exact ih hu he

end RegexDialects.Regex
