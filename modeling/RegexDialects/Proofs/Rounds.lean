import Mathlib.Logic.Function.Iterate
import RegexDialects.Proofs.Settling

/-!
# Rounds of writing and reading

A tree is written in the notation of PCRE, the text is read, and so on (`rounds`). One round of a
legible tree is `readBack`, unless the reader gives up on groups and repetitions that nest too deep
(`round_of_legible`). So the tree after `n` rounds is known (`rounds_eq_ok`), and what is known of
reading back is all there is to say about rounds.
-/

set_option autoImplicit false

namespace RegexDialects.Regex

/-- Writes a tree in the notation of PCRE and reads the text. -/
def round (e : Regex) : Except ConvertError Regex :=
  match e.render .pcre with
  | .error cause => .error (.render cause)
  | .ok text => (Regex.parse .pcre text).mapError .parse

/-- The tree after a number of rounds. -/
def rounds : Nat → Regex → Except ConvertError Regex
  | 0, e => .ok e
  | n + 1, e => do round (← rounds n e)

/-- Whether a round failed because of groups and repetitions that nest too deep. -/
def FailsDeep (cause : ConvertError) : Prop :=
  ∃ f, cause = .parse f ∧ f.kind = .tooDeep

theorem round_of_render {e e' : Regex} {text : String} (hr : e.render .pcre = .ok text)
    (hp : Regex.parse .pcre text = .ok e') : e.round = .ok e' := by
  have hround : e.round = (Regex.parse .pcre text).mapError .parse := by
    rw [round, hr]
  rw [hround, hp]
  rfl

theorem round_of_legible {e : Regex} (h : e.Legible) :
    (∃ cause, e.round = .error cause ∧ FailsDeep cause) ∨ e.round = .ok e.readBack := by
  obtain ⟨text, htext⟩ := h.writable.render
  rcases parse_of_render h.ordered htext with ⟨f, hf, hkind⟩ | hread
  · have hround : e.round = (Regex.parse .pcre text).mapError .parse := by
      rw [round, htext]
    rw [hround, hf]
    exact Or.inl ⟨_, rfl, f, rfl, hkind⟩
  · exact Or.inr (round_of_render htext hread)

theorem rounds_succ_eq_ok_iff {n : Nat} {e t : Regex} :
    rounds (n + 1) e = .ok t ↔ ∃ s, rounds n e = .ok s ∧ s.round = .ok t := by
  rw [rounds]
  cases rounds n e <;> simp [bind, Except.bind]

/-- The tree after some rounds is legible, and is what is read back that often. -/
theorem rounds_eq_ok {n : Nat} {e t : Regex} (h : e.Legible) (ht : rounds n e = .ok t) :
    t.Legible ∧ t = readBack^[n] e := by
  induction n generalizing t with
  | zero =>
    cases ht
    exact ⟨h, rfl⟩
  | succ n ih =>
    obtain ⟨s, hs, ht⟩ := rounds_succ_eq_ok_iff.1 ht
    obtain ⟨hleg, hiter⟩ := ih hs
    rcases round_of_legible hleg with ⟨cause, hround, -⟩ | hround
    · rw [hround] at ht
      cases ht
    · rw [hround] at ht
      cases ht
      refine ⟨hleg.readBack, ?_⟩
      rw [Function.iterate_succ_apply', ← hiter]

theorem rounds_eq_error {n : Nat} {e : Regex} (h : e.Legible) {cause : ConvertError}
    (hc : rounds n e = .error cause) : FailsDeep cause := by
  induction n generalizing cause with
  | zero => cases hc
  | succ n ih =>
    cases hs : rounds n e with
    | error cause' =>
      -- An earlier round failed, and no other was tried.
      rw [rounds, hs] at hc
      cases hc
      exact ih hs
    | ok s =>
      rw [rounds, hs] at hc
      have hc : s.round = .error cause := hc
      rcases round_of_legible (rounds_eq_ok h hs).1 with ⟨cause', hround, hdeep⟩ | hround
      · rw [hround] at hc
        cases hc
        exact hdeep
      · rw [hround] at hc
        cases hc

/-- After the second round there is nothing new. -/
theorem iterate_readBack_of_legible {e : Regex} (h : e.Legible) (n : Nat) :
    readBack^[n + 2] e = e.readBack.readBack := by
  induction n with
  | zero => rfl
  | succ n ih => rw [Function.iterate_succ_apply', ih, h.readBack_readBack_readBack]

theorem exists_rounds_of_add {m n : Nat} {e t : Regex} (ht : rounds (n + m) e = .ok t) :
    ∃ s, rounds m e = .ok s := by
  induction n generalizing t with
  | zero =>
    rw [Nat.zero_add] at ht
    exact ⟨t, ht⟩
  | succ n ih =>
    rw [Nat.succ_add] at ht
    obtain ⟨s, hs, -⟩ := rounds_succ_eq_ok_iff.1 ht
    exact ih hs

/-- **Rounds of writing and reading come to rest after the second one.** From a tree that was read
    and can be written, no round ever fails to write a tree, or to read one for another reason than
    its depth, and the tree after the second round stays what it is. -/
theorem rounds_of_parse {dialect : Dialect} {pattern : String} {e : Regex}
    (hp : Regex.parse dialect pattern = .ok e) {text : String} (h : e.render .pcre = .ok text) :
    (∀ n t, rounds n e = .ok t → ∃ text', t.render .pcre = .ok text') ∧
      (∀ n cause, rounds n e = .error cause → FailsDeep cause) ∧
        ∀ n t, rounds (n + 2) e = .ok t → rounds 2 e = .ok t := by
  have hleg : e.Legible := ⟨fit_of_parse hp, writable_of_render h⟩
  refine ⟨?_, ?_, ?_⟩
  · intro n t ht
    exact (rounds_eq_ok hleg ht).1.writable.render
  · intro n cause hc
    exact rounds_eq_error hleg hc
  · intro n t ht
    obtain ⟨s, hs⟩ := exists_rounds_of_add ht
    have hst : s = t := by
      rw [(rounds_eq_ok hleg hs).2, (rounds_eq_ok hleg ht).2, iterate_readBack_of_legible hleg n]
      rfl
    rw [hs, hst]

/-- Two rounds are needed where a class is repeated. -/
theorem rounds_of_parse_repeated_class :
    Regex.parse .pcre "\\w|\\w" = .ok (.choice [.primitive .wordChar, .primitive .wordChar]) ∧
      rounds 1 (.choice [.primitive .wordChar, .primitive .wordChar]) =
        .ok (.set (.of (.posix .word))) ∧
      rounds 2 (.choice [.primitive .wordChar, .primitive .wordChar]) =
        .ok (.primitive .wordChar) ∧
      ∀ n t, rounds (n + 2) (.choice [.primitive .wordChar, .primitive .wordChar]) = .ok t →
        t = .primitive .wordChar := by
  have hparse : Regex.parse .pcre "\\w|\\w" =
      .ok (.choice [.primitive .wordChar, .primitive .wordChar]) :=
    parse_eq_of_toOption (by decide +kernel)
  have hrender : render .pcre (.choice [.primitive .wordChar, .primitive .wordChar]) =
      .ok "[\\w\\w]" := by
    rfl
  have hfirst : rounds 1 (.choice [.primitive .wordChar, .primitive .wordChar]) =
      .ok (.set (.of (.posix .word))) :=
    rounds_succ_eq_ok_iff.2
      ⟨_, rfl, round_of_render hrender (parse_eq_of_toOption (by decide +kernel))⟩
  have hsecond : rounds 2 (.choice [.primitive .wordChar, .primitive .wordChar]) =
      .ok (.primitive .wordChar) := by
    have hset : render .pcre (.set (.of (.posix .word))) = .ok "\\w" := by
      rfl
    exact rounds_succ_eq_ok_iff.2
      ⟨_, hfirst, round_of_render hset (parse_eq_of_toOption (by decide +kernel))⟩
  refine ⟨hparse, hfirst, hsecond, ?_⟩
  intro n t ht
  have h := (rounds_of_parse hparse hrender).2.2 n t ht
  rw [hsecond] at h
  cases h
  rfl

end RegexDialects.Regex
