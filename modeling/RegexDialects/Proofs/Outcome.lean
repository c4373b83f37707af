import RegexDialects.Dialect

/-!
# Computations that may fail

Writers, constructors and limits answer in `Except`. A computation of several steps that succeeds
does so step by step, and the lemmas here take it apart into them, or put it together again.
Readers do as well, and for a depth that may be too much there is a name of its own
(`Regex.IsReadAs`).
-/

set_option autoImplicit false

namespace RegexDialects

variable {α β ε : Type} {x : Except ε α}

/-- What comes after a value has a value itself if both are there. -/
theorem bind_eq_ok_iff {f : α → Except ε β} {b : β} :
    x >>= f = .ok b ↔ ∃ a, x = .ok a ∧ f a = .ok b := by
  cases x with
  | error cause => simp [bind, Except.bind]
  | ok a => simp [bind, Except.bind]

theorem map_eq_ok_iff {f : α → β} {b : β} : x.map f = .ok b ↔ ∃ a, x = .ok a ∧ f a = b := by
  cases x with
  | error cause => simp [Except.map]
  | ok a => simp [Except.map]

/-- What comes after a value fails if the value is not there, or later. -/
theorem bind_eq_error_iff {f : α → Except ε β} {cause : ε} :
    x >>= f = .error cause ↔ x = .error cause ∨ ∃ a, x = .ok a ∧ f a = .error cause := by
  cases x with
  | error c => simp [bind, Except.bind]
  | ok a => simp [bind, Except.bind]

theorem map_eq_error_iff {f : α → β} {cause : ε} : x.map f = .error cause ↔ x = .error cause := by
  cases x with
  | error c => simp [Except.map]
  | ok a => simp [Except.map]

theorem mapError_eq_ok_iff {δ : Type} {f : ε → δ} {a : α} : x.mapError f = .ok a ↔ x = .ok a := by
  cases x with
  | error c => exact ⟨nofun, nofun⟩
  | ok b =>
    constructor <;> rintro ⟨⟩ <;> rfl

theorem mapError_eq_error_iff {δ : Type} {f : ε → δ} {cause : δ} :
    x.mapError f = .error cause ↔ ∃ c, x = .error c ∧ f c = cause := by
  constructor
  · intro h
    cases x with
    | error c =>
      cases h
      exact ⟨c, rfl, rfl⟩
    | ok a => cases h
  · rintro ⟨c, rfl, rfl⟩
    rfl

/-- A computation can be compared by its value alone, where equality of errors cannot be decided. -/
theorem eq_ok_of_toOption {a : α} (h : x.toOption = some a) : x = .ok a := by
  cases x with
  | error c => cases h
  | ok b =>
    cases h
    rfl

/-- Whether there is a value does not depend on what is made of it. -/
theorem exists_map_eq_ok_iff {f : α → β} : (∃ b, x.map f = .ok b) ↔ ∃ a, x = .ok a := by
  constructor
  · rintro ⟨b, h⟩
    obtain ⟨a, ha, -⟩ := map_eq_ok_iff.1 h
    exact ⟨a, ha⟩
  · rintro ⟨a, rfl⟩
    exact ⟨f a, rfl⟩

theorem exists_bind_eq_ok_iff {f : α → β} :
    (∃ b, (x >>= fun a => .ok (f a)) = .ok b) ↔ ∃ a, x = .ok a := by
  constructor
  · rintro ⟨b, h⟩
    obtain ⟨a, ha, -⟩ := bind_eq_ok_iff.1 h
    exact ⟨a, ha⟩
  · rintro ⟨a, rfl⟩
    exact ⟨f a, rfl⟩

theorem mapM_cons_eq_ok_iff {f : α → Except ε β} {a : α} {l : List α} {m : List β} :
    (a :: l).mapM f = .ok m ↔ ∃ b k, f a = .ok b ∧ l.mapM f = .ok k ∧ m = b :: k := by
  rw [List.mapM_cons]
  simp only [bind_eq_ok_iff]
  constructor
  · rintro ⟨b, hb, k, hk, h⟩
    cases h
    exact ⟨b, k, hb, hk, rfl⟩
  · rintro ⟨b, k, hb, hk, rfl⟩
    exact ⟨b, hb, k, hk, rfl⟩

/-- What a map that may fail returns comes from what it was given. -/
theorem exists_mem_of_mapM_ok {f : α → Except ε β} {l : List α} {m : List β}
    (h : l.mapM f = .ok m) {b : β} (hb : b ∈ m) : ∃ a ∈ l, f a = .ok b := by
  induction l generalizing m with
  | nil =>
    cases h
    exact absurd hb List.not_mem_nil
  | cons a l ih =>
    obtain ⟨c, k, hc, hk, rfl⟩ := mapM_cons_eq_ok_iff.1 h
    rcases List.mem_cons.1 hb with rfl | hb
    · exact ⟨a, List.mem_cons_self, hc⟩
    · obtain ⟨x, hx, hf⟩ := ih hk hb
      exact ⟨x, List.mem_cons_of_mem _ hx, hf⟩

/-- What a map that may fail was given has its value in what it returns. -/
theorem exists_value_of_mapM_ok {f : α → Except ε β} {l : List α} {m : List β}
    (h : l.mapM f = .ok m) {a : α} (ha : a ∈ l) : ∃ b ∈ m, f a = .ok b := by
  induction l generalizing m with
  | nil => exact absurd ha List.not_mem_nil
  | cons x l ih =>
    obtain ⟨b, k, hb, hk, rfl⟩ := mapM_cons_eq_ok_iff.1 h
    rcases List.mem_cons.1 ha with rfl | ha
    · exact ⟨b, List.mem_cons_self, hb⟩
    · obtain ⟨y, hy, hf⟩ := ih hk ha
      exact ⟨y, List.mem_cons_of_mem _ hy, hf⟩

/-- A map that may fail succeeds if and only if it succeeds on every member of the list. -/
theorem exists_mapM_eq_ok_iff {f : α → Except ε β} {l : List α} :
    (∃ m, l.mapM f = .ok m) ↔ ∀ a ∈ l, ∃ b, f a = .ok b := by
  constructor
  · rintro ⟨m, h⟩ a ha
    obtain ⟨b, -, hb⟩ := exists_value_of_mapM_ok h ha
    exact ⟨b, hb⟩
  · intro h
    induction l with
    | nil => exact ⟨[], rfl⟩
    | cons a l ih =>
      obtain ⟨b, hb⟩ := h a List.mem_cons_self
      obtain ⟨m, hm⟩ := ih fun x hx => h x (List.mem_cons_of_mem _ hx)
      exact ⟨b :: m, mapM_cons_eq_ok_iff.2 ⟨b, m, hb, hm, rfl⟩⟩

/-! ## Nesting -/

/-- A pattern is read as `e`, unless it nests too deep. -/
def Regex.IsReadAs (dialect : Dialect) (pattern : String) (e : Regex) : Prop :=
  (∃ f, Regex.parse dialect pattern = .error f ∧ f.kind = .tooDeep) ∨
    Regex.parse dialect pattern = .ok e

end RegexDialects
