import RegexDialects.Proofs.NormalForm

/-!
# Sequences

A sequence is built by opening the sequences inside (`partsAll`) and merging literals (`joinText`).
Merging is a fold (`joinText_eq_foldr`) of one step, `glue`, which puts a part in front of parts
that are merged already; that two literals in front are the same as their concatenation
(`glue_glue`) is all that is needed to see that merging may be done piecemeal, in any grouping.
-/

set_option autoImplicit false

namespace RegexDialects.Regex

/-! ## Parts -/

theorem partsAll_eq_flatMap (l : List Regex) : partsAll l = l.flatMap parts := by
  induction l with
  | nil => rfl
  | cons e l ih => rw [partsAll, ih, List.flatMap_cons]

theorem parts_of_isPart {e : Regex} (h : e.isPart = true) : e.parts = [e] := by
  cases e <;> simp_all [isPart, parts]

theorem partsAll_of_isPart {l : List Regex} (h : ∀ e ∈ l, e.isPart = true) : partsAll l = l := by
  induction l with
  | nil => rfl
  | cons e l ih =>
    have hl : ∀ x ∈ l, x.isPart = true := by
      intro x hx
      exact h x (List.mem_cons_of_mem _ hx)
    rw [partsAll, parts_of_isPart (h e List.mem_cons_self), ih hl]
    rfl

theorem partsAll_append (l m : List Regex) : partsAll (l ++ m) = partsAll l ++ partsAll m := by
  simp [partsAll_eq_flatMap]

/-- What a tree contributes to a sequence is fit to stand in one. -/
theorem isPart_of_mem_parts {e x : Regex} (h : x ∈ e.parts) : x.isPart = true := by
  induction e using inductionOn with
  | empty => simp [parts] at h
  | sequence l ih =>
    rw [parts, partsAll_eq_flatMap, List.mem_flatMap] at h
    obtain ⟨e, he, hx⟩ := h
    exact ih e he hx
  | _ => simp_all [parts, isPart]

theorem isPart_of_mem_partsAll {l : List Regex} {x : Regex} (h : x ∈ partsAll l) :
    x.isPart = true := by
  rw [partsAll_eq_flatMap, List.mem_flatMap] at h
  obtain ⟨e, _, hx⟩ := h
  exact isPart_of_mem_parts hx

/-! ## Merging -/

/-- Puts a part in front of parts that are merged. -/
def glue : Regex → List Regex → List Regex
  | .literal t, .literal u :: l => .literal (t ++ u) :: l
  | e, l => e :: l

/-- Either two literals meet and merge, or the part goes in front as it is. -/
theorem glue_cases (e : Regex) (l : List Regex) :
    (∃ t u m, e = .literal t ∧ l = .literal u :: m ∧ glue e l = .literal (t ++ u) :: m) ∨
      (glue e l = e :: l ∧ ∀ f ∈ l.head?, ¬ (e.isLiteral = true ∧ f.isLiteral = true)) := by
  cases e with
  | literal t =>
    cases l with
    | nil => exact Or.inr ⟨rfl, fun f hf => by simp at hf⟩
    | cons x m =>
      cases x with
      | literal u => exact Or.inl ⟨t, u, m, rfl, rfl, rfl⟩
      | _ => exact Or.inr ⟨rfl, fun f hf => by cases hf; simp [isLiteral]⟩
  | _ => exact Or.inr ⟨rfl, fun f hf => by simp [isLiteral]⟩

theorem joinText_cons (e : Regex) (l : List Regex) : joinText (e :: l) = glue e (joinText l) := by
  cases e with
  | literal t =>
    rw [joinText]
    cases joinText l with
    | nil => rfl
    | cons x m => cases x <;> rfl
  | _ => rfl

theorem joinText_eq_foldr (l : List Regex) : joinText l = l.foldr glue [] := by
  induction l with
  | nil => rfl
  | cons e l ih => rw [joinText_cons, ih, List.foldr_cons]

/-- Two literals in front are as good as their concatenation. -/
theorem glue_glue (t u : List Char) (l : List Regex) :
    glue (.literal t) (glue (.literal u) l) = glue (.literal (t ++ u)) l := by
  match l with
  | [] => rfl
  | .literal v :: l => simp [glue]
  | .empty :: _ | .primitive _ :: _ | .sequence _ :: _ | .choice _ :: _
  | .repetition _ _ _ _ :: _ | .group _ :: _ | .backref _ :: _ | .syntaxClass _ :: _
  | .category _ :: _ | .set _ :: _ | .complement _ :: _ | .intersection _ :: _ => rfl

theorem foldr_glue_glue (e : Regex) (l m : List Regex) :
    (glue e l).foldr glue m = glue e (l.foldr glue m) := by
  rcases glue_cases e l with ⟨t, u, k, rfl, rfl, h⟩ | ⟨h, -⟩
  · rw [h, List.foldr_cons, List.foldr_cons, glue_glue]
  · rw [h, List.foldr_cons]

theorem foldr_glue_joinText (l m : List Regex) :
    (joinText l).foldr glue m = l.foldr glue m := by
  induction l with
  | nil => rfl
  | cons e l ih => rw [joinText_cons, foldr_glue_glue, ih, List.foldr_cons]

theorem joinText_joinText (l : List Regex) : joinText (joinText l) = joinText l := by
  rw [joinText_eq_foldr (joinText l), foldr_glue_joinText, joinText_eq_foldr]

theorem joinText_append (l m : List Regex) : joinText (l ++ m) = l.foldr glue (joinText m) := by
  rw [joinText_eq_foldr, List.foldr_append, ← joinText_eq_foldr]

theorem joinText_joinText_append (l m : List Regex) :
    joinText (joinText l ++ m) = joinText (l ++ m) := by
  rw [joinText_append, joinText_append, foldr_glue_joinText]

theorem joinText_append_joinText (l m : List Regex) :
    joinText (l ++ joinText m) = joinText (l ++ m) := by
  rw [joinText_append, joinText_append, joinText_joinText]

/-- A map that keeps literals does not care whether they are merged before it. -/
theorem joinText_map_joinText {f : Regex → Regex} (hf : ∀ t, f (.literal t) = .literal t)
    (l : List Regex) : joinText ((joinText l).map f) = joinText (l.map f) := by
  have map_glue : ∀ e m, joinText ((glue e m).map f) = glue (f e) (joinText (m.map f)) := by
    intro e m
    rcases glue_cases e m with ⟨t, u, k, rfl, rfl, h⟩ | ⟨h, -⟩
    · rw [h, List.map_cons, List.map_cons, joinText_cons, joinText_cons, hf, hf, hf, glue_glue]
    · rw [h, List.map_cons, joinText_cons]
  induction l with
  | nil => rfl
  | cons e l ih => rw [joinText_cons, map_glue, ih, List.map_cons, joinText_cons]

/-- The characters of a text, one literal each, merge into the text. -/
theorem joinText_singletons {t : List Char} (h : t ≠ []) :
    joinText (t.map fun c => .literal [c]) = [.literal t] := by
  induction t with
  | nil => exact absurd rfl h
  | cons c t ih =>
    rw [List.map_cons, joinText_cons]
    cases t with
    | nil => rfl
    | cons d t =>
      rw [ih (List.cons_ne_nil _ _)]
      rfl

/-! ## What merging keeps -/

theorem forall_mem_glue {P : Regex → Prop} (hP : ∀ t u, P (.literal t) → P (.literal (t ++ u)))
    {e : Regex} {l : List Regex} (he : P e) (hl : ∀ x ∈ l, P x) : ∀ x ∈ glue e l, P x := by
  intro x hx
  rcases glue_cases e l with ⟨t, u, m, rfl, rfl, h⟩ | ⟨h, -⟩ <;> rw [h] at hx
  · rcases List.mem_cons.1 hx with rfl | hx
    · exact hP t u he
    · exact hl x (List.mem_cons_of_mem _ hx)
  · rcases List.mem_cons.1 hx with rfl | hx
    · exact he
    · exact hl x hx

theorem forall_mem_joinText {P : Regex → Prop}
    (hP : ∀ t u, P (.literal t) → P (.literal (t ++ u))) {l : List Regex} (hl : ∀ x ∈ l, P x) :
    ∀ x ∈ joinText l, P x := by
  induction l with
  | nil => exact hl
  | cons e l ih =>
    rw [joinText_cons]
    apply forall_mem_glue hP (hl e List.mem_cons_self)
    apply ih
    intro x hx
    exact hl x (List.mem_cons_of_mem _ hx)

theorem isPart_of_mem_joinText {l : List Regex} (hl : ∀ x ∈ l, x.isPart = true) :
    ∀ x ∈ joinText l, x.isPart = true :=
  forall_mem_joinText (fun _ _ _ => rfl) hl

theorem apart_cons {e : Regex} {l : List Regex} :
    Apart (e :: l) ↔
      (∀ f ∈ l.head?, ¬ (e.isLiteral = true ∧ f.isLiteral = true)) ∧ Apart l :=
  List.isChain_cons

theorem Apart.glue {l : List Regex} (h : Apart l) (e : Regex) : Apart (glue e l) := by
  rcases glue_cases e l with ⟨t, u, m, rfl, rfl, he⟩ | ⟨he, hd⟩
  · -- A longer literal has no literal behind it if the shorter one had none.
    rw [he]
    exact apart_cons.2 ⟨fun f hf => (apart_cons.1 h).1 f hf, (apart_cons.1 h).2⟩
  · rw [he]
    exact apart_cons.2 ⟨hd, h⟩

/-- Merged parts have no literals side by side. -/
theorem apart_joinText (l : List Regex) : Apart (joinText l) := by
  induction l with
  | nil => exact List.isChain_nil
  | cons e l ih =>
    rw [joinText_cons]
    exact ih.glue e

/-- Where no literals stand side by side there is nothing to merge. -/
theorem joinText_of_apart {l : List Regex} (h : Apart l) : joinText l = l := by
  induction l with
  | nil => rfl
  | cons e l ih =>
    obtain ⟨he, hl⟩ := apart_cons.1 h
    rw [joinText_cons, ih hl]
    rcases glue_cases e l with ⟨t, u, m, rfl, rfl, -⟩ | ⟨h, -⟩
    · exact absurd ⟨rfl, rfl⟩ (he _ rfl)
    · exact h

/-! ## Sequences -/

/-- The tree of parts that are merged. -/
def ofParts : List Regex → Regex
  | [] => .empty
  | [e] => e
  | l => .sequence l

theorem seq_eq_ofParts (l : List Regex) : seq l = ofParts (joinText (partsAll l)) := by
  rw [seq]
  rfl

theorem seq_congr {l m : List Regex} (h : joinText (partsAll l) = joinText (partsAll m)) :
    seq l = seq m := by
  rw [seq_eq_ofParts, seq_eq_ofParts, h]

/-- A sequence contributes its merged parts to a sequence around it. -/
theorem parts_seq (l : List Regex) : (seq l).parts = joinText (partsAll l) := by
  have h : ∀ x ∈ joinText (partsAll l), x.isPart = true :=
    isPart_of_mem_joinText fun _ hx => isPart_of_mem_partsAll hx
  rw [seq_eq_ofParts]
  generalize joinText (partsAll l) = m at h ⊢
  match m with
  | [] => rfl
  | [e] => exact parts_of_isPart (h e List.mem_cons_self)
  | _ :: _ :: _ => exact partsAll_of_isPart h

/-- Concatenation does not depend on how it is grouped. -/
theorem seq_append_seq (l m k : List Regex) : seq (l ++ seq m :: k) = seq (l ++ m ++ k) := by
  apply seq_congr
  rw [partsAll_append, partsAll_append, partsAll_append, partsAll, parts_seq]
  -- On the left the parts of `m` are merged before the others are.
  rw [← joinText_append_joinText, joinText_joinText_append, joinText_append_joinText,
    List.append_assoc]

theorem seq_of_isPart {l : List Regex} (h : ∀ e ∈ l, e.isPart = true) :
    seq l = ofParts (joinText l) := by
  rw [seq_eq_ofParts, partsAll_of_isPart h]

/-- A sequence in normal form is what its parts make. -/
theorem seq_of_isNormal {l : List Regex} (h : IsNormal (.sequence l)) : seq l = .sequence l := by
  rw [seq_of_isPart fun e he => h.isPart_of_mem he, joinText_of_apart h.2.2]
  match l, h.1 with
  | _ :: _ :: _, _ => rfl

theorem seq_singleton {e : Regex} (h : e.IsNormal) : seq [e] = e := by
  cases e with
  | empty => rfl
  | sequence l =>
    have hl : partsAll [.sequence l] = partsAll l := by simp [partsAll, parts]
    rw [seq_congr (m := l) (by rw [hl]), seq_of_isNormal h]
  | _ => rfl

/-- The characters of a text, one after the other, are the text. -/
theorem seq_singletons (t : List Char) : seq (t.map fun c => .literal [c]) = text t := by
  cases t with
  | nil => rfl
  | cons c t =>
    rw [seq_of_isPart (by simp [isPart]), joinText_singletons (List.cons_ne_nil _ _)]
    rfl

/-! ## What is collected along a sequence -/

/-- Whether a list is collected from a sequence part by part. -/
structure Additive {α : Type} (f : Regex → List α) : Prop where
  empty : f .empty = []
  literal : ∀ t u, f (.literal (t ++ u)) = f (.literal t) ++ f (.literal u)
  sequence : ∀ l, f (.sequence l) = l.flatMap f

section Additive

variable {α : Type} {f : Regex → List α}

theorem Additive.parts (hf : Additive f) (e : Regex) : e.parts.flatMap f = f e := by
  induction e using inductionOn with
  | empty => exact hf.empty.symm
  | sequence l ih =>
    rw [Regex.parts, partsAll_eq_flatMap, List.flatMap_assoc, hf.sequence]
    exact List.flatMap_congr ih
  | _ => rw [parts_of_isPart rfl, List.flatMap_cons, List.flatMap_nil, List.append_nil]

theorem Additive.glue (hf : Additive f) (e : Regex) (l : List Regex) :
    (glue e l).flatMap f = f e ++ l.flatMap f := by
  rcases glue_cases e l with ⟨t, u, m, rfl, rfl, h⟩ | ⟨h, -⟩
  · rw [h, List.flatMap_cons, List.flatMap_cons, hf.literal, List.append_assoc]
  · rw [h, List.flatMap_cons]

/-- Merging literals loses nothing. -/
theorem Additive.joinText (hf : Additive f) (l : List Regex) :
    (joinText l).flatMap f = l.flatMap f := by
  induction l with
  | nil => rfl
  | cons e l ih => rw [joinText_cons, hf.glue, ih, List.flatMap_cons]

theorem Additive.ofParts (hf : Additive f) (l : List Regex) :
    f (ofParts l) = l.flatMap f := by
  match l with
  | [] => exact hf.empty
  | [e] => simp [Regex.ofParts]
  | e :: g :: l => exact hf.sequence _

/-- What is collected from a sequence that is built is what is collected from its parts. -/
theorem Additive.seq (hf : Additive f) (l : List Regex) : f (seq l) = l.flatMap f := by
  rw [seq_eq_ofParts, hf.ofParts, hf.joinText, partsAll_eq_flatMap, List.flatMap_assoc]
  exact List.flatMap_congr fun e _ => hf.parts e

end Additive

end RegexDialects.Regex
