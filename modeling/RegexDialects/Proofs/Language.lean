import Mathlib.Computability.Language
import RegexDialects.Proofs.SetMeaning

/-!
# Normalisation keeps the language

The texts that a tree matches, whatever the leaves match of which the tree holds a name only
(`Assignment`), and what the functions that build trees make of them (`language_normalization`).
They rewrite a good deal: sequences inside sequences are opened and literals merged, branches are
dropped or folded into one set. No text is lost by it and none is added.

The language of a tree is a product and a sum of those of its parts, by recursion on the tree, and
says nothing about how trees are built. Characters keep their meaning as single characters:
`mem_language_assignment` is the bridge to `Denotes`.
-/

set_option autoImplicit false

namespace RegexDialects

open Regex

/-- What names stand for: the characters of the named classes, and the texts of those leaves of
    which a tree says nothing more. What matches single characters has texts of one character. -/
structure Assignment where
  posix : PosixClass → Char → Prop
  leaf : Regex → Language Char
  single : ∀ e, e.isCharSetLike = true → ∀ w ∈ leaf e, ∃ c, w = [c]

namespace Regex

variable {v : Assignment} {w : List Char}

mutual

/-- The texts that a tree matches. -/
def language (v : Assignment) : Regex → Language Char
  | .empty => 1
  | .literal t => {t}
  | .sequence l => languageOfAll v l
  | .choice l => languageOfSome v l
  | .repetition least most _ e => {w | ∃ k, least ≤ k ∧ (∀ m ∈ most, k ≤ m) ∧ w ∈ language v e ^ k}
  | .group e => language v e
  | .set s => {w | ∃ c, w = [c] ∧ s.Holds v.posix c}
  | e => v.leaf e

/-- The texts that are matched by all of a list, one after the other. -/
def languageOfAll (v : Assignment) : List Regex → Language Char
  | [] => 1
  | e :: l => language v e * languageOfAll v l

/-- The texts that one of a list matches. -/
def languageOfSome (v : Assignment) : List Regex → Language Char
  | [] => 0
  | e :: l => language v e + languageOfSome v l

end

theorem languageOfAll_eq_prod (l : List Regex) : languageOfAll v l = (l.map (language v)).prod := by
  induction l with
  | nil => rfl
  | cons e l ih => rw [languageOfAll, ih, List.map_cons, List.prod_cons]

theorem mem_languageOfSome {l : List Regex} :
    w ∈ languageOfSome v l ↔ ∃ e ∈ l, w ∈ language v e := by
  induction l with
  | nil => simp [languageOfSome, Language.notMem_zero]
  | cons e l ih => simp [languageOfSome, Language.mem_add, ih]

theorem mem_language_set {s : CharSet} :
    w ∈ language v (.set s) ↔ ∃ c, w = [c] ∧ s.Holds v.posix c :=
  Iff.rfl

theorem language_text (t : List Char) : language v (text t) = {t} := by
  cases t <;> rfl

/-! ## Sequences -/

mutual

/-- The languages of the parts that a tree contributes to a sequence, characters one by one. -/
def factors (v : Assignment) : Regex → List (Language Char)
  | .empty => []
  | .literal t => t.map fun c => {[c]}
  | .sequence l => factorsOfAll v l
  | e => [language v e]

/-- The factors of all of a list, one after the other. -/
def factorsOfAll (v : Assignment) : List Regex → List (Language Char)
  | [] => []
  | e :: l => factors v e ++ factorsOfAll v l

end

theorem factorsOfAll_eq_flatMap (l : List Regex) : factorsOfAll v l = l.flatMap (factors v) := by
  induction l with
  | nil => rfl
  | cons e l ih => rw [factorsOfAll, ih, List.flatMap_cons]

theorem additive_factors : Additive (factors v) where
  empty := rfl
  literal := fun _ _ => List.map_append
  sequence := factorsOfAll_eq_flatMap

/-- A text is the product of its characters. -/
theorem prod_singletons (t : List Char) :
    (t.map fun c => ({[c]} : Language Char)).prod = {t} := by
  induction t with
  | nil => rfl
  | cons c t ih =>
    rw [List.map_cons, List.prod_cons, ih]
    exact Set.image2_singleton

theorem prod_flatMap_factors {l : List Regex}
    (h : ∀ e ∈ l, (factors v e).prod = language v e) :
    (l.flatMap (factors v)).prod = (l.map (language v)).prod := by
  induction l with
  | nil => rfl
  | cons e l ih =>
    rw [List.flatMap_cons, List.prod_append, h e List.mem_cons_self, List.map_cons, List.prod_cons,
      ih fun x hx => h x (List.mem_cons_of_mem _ hx)]

theorem prod_factors (e : Regex) : (factors v e).prod = language v e := by
  induction e using inductionOn with
  | empty => rfl
  | literal t => exact prod_singletons t
  | sequence l ih =>
    show (factorsOfAll v l).prod = languageOfAll v l
    rw [factorsOfAll_eq_flatMap, prod_flatMap_factors ih, languageOfAll_eq_prod]
  | _ => exact List.prod_singleton

/-- The language of a sequence that is built is the product of those of its parts. -/
theorem language_seq (l : List Regex) : language v (seq l) = (l.map (language v)).prod := by
  rw [← prod_factors, additive_factors.seq, prod_flatMap_factors fun e _ => prod_factors e]

/-! ## Choices and unions -/

theorem mem_language_of_plainSet? {e : Regex} {s : CharSet} (h : e.plainSet? = some s) :
    w ∈ language v e ↔ w ∈ language v (.set s) := by
  unfold plainSet? at h
  split at h
  · cases h
    exact Iff.rfl
  · next c =>
    cases h
    rw [mem_language_set]
    simp only [CharSet.holds_of, CharSet.Item.Holds, exists_eq_right]
    exact Iff.rfl
  · cases h

/-- A choice matches a text if one of its branches does. -/
theorem distributes_language : Distributes fun e => w ∈ language v e where
  choice := fun _ => mem_languageOfSome
  plain := mem_language_of_plainSet?
  fail := by
    rintro ⟨c, -, h⟩
    exact CharSet.not_holds_empty h
  union := by
    intro s t
    simp only [mem_language_set, CharSet.holds_union, and_or_left, exists_or]

theorem mem_language_alt {l : List Regex} :
    w ∈ language v (alt l) ↔ ∃ e ∈ l, w ∈ language v e :=
  distributes_language.alt l

theorem mem_language_union {l : List Regex} :
    w ∈ language v (union l) ↔ ∃ e ∈ l, w ∈ language v e :=
  distributes_language.unionOf l

/-! ## Repetitions -/

/-- A repetition matches what its body matches so many times as its bounds allow; none at all, if
    the upper bound is zero. -/
theorem mem_language_repeated {least : Nat} {most : Option Nat} {greedy : Bool} {e e' : Regex}
    (h : repeated least most greedy e = .ok e') :
    w ∈ language v e' ↔ ∃ k, least ≤ k ∧ (∀ m ∈ most, k ≤ m) ∧ w ∈ language v e ^ k := by
  have hord : ∀ m ∈ most, least ≤ m := by
    rintro m rfl
    refine Nat.le_of_not_lt fun hlt => ?_
    simp [repeated, hlt] at h
  rcases repeated_cases h with ⟨rfl, rfl⟩ | ⟨-, rfl⟩
  · constructor
    · intro hw
      exact ⟨0, hord 0 rfl, fun _ _ => Nat.zero_le _, hw⟩
    · rintro ⟨k, -, hk, hw⟩
      rw [Nat.le_zero.1 (hk 0 rfl)] at hw
      exact hw
  · exact Iff.rfl

/-! ## Single characters -/

theorem mem_language_choice {l : List Regex} :
    w ∈ language v (.choice l) ↔ ∃ e ∈ l, w ∈ language v e :=
  mem_languageOfSome

/-- What is a matter of single characters matches nothing but texts of one character. -/
theorem exists_eq_singleton_of_mem_language {e : Regex} (h : e.isCharSetLike = true)
    (hw : w ∈ language v e) : ∃ c, w = [c] := by
  induction e using inductionOn with
  | literal t =>
    obtain rfl : w = t := hw
    exact List.length_eq_one_iff.1 (beq_iff_eq.1 h)
  | choice l ih =>
    obtain ⟨e, he, hw⟩ := mem_language_choice.1 hw
    exact ih e he (allCharSetLike_iff.1 h e he) hw
  | set s =>
    obtain ⟨c, rfl, -⟩ := mem_language_set.1 hw
    exact ⟨c, rfl⟩
  | primitive p => exact v.single _ h w hw
  | syntaxClass k => exact v.single _ h w hw
  | category k => exact v.single _ h w hw
  | complement e _ => exact v.single _ h w hw
  | intersection l _ => exact v.single _ h w hw
  | _ => cases h

end Regex

/-! ## Assignments from interpretations -/

/-- The characters that a tree matches under an interpretation, as texts. -/
def Interpretation.characters (I : Interpretation) (e : Regex) : Language Char :=
  {w | ∃ c, w = [c] ∧ e.Denotes I c}

/-- The assignment under which trees of single characters match what an interpretation says, and
    all other leaves what they are given. -/
def Interpretation.assignment (I : Interpretation) (leaf : Regex → Language Char) : Assignment where
  posix := I.posix
  leaf e := if e.isCharSetLike then I.characters e else leaf e
  single := by
    intro e he w hw
    rw [if_pos he] at hw
    obtain ⟨c, hc, -⟩ := hw
    exact ⟨c, hc⟩

namespace Regex

variable {I : Interpretation} {leaf : Regex → Language Char} {w : List Char}

/-- Under such an assignment the texts of a tree of single characters are the characters that the
    tree matches. -/
theorem mem_language_assignment {e : Regex} (h : e.isCharSetLike = true) :
    w ∈ language (I.assignment leaf) e ↔ ∃ c, w = [c] ∧ e.Denotes I c := by
  have leaf_iff : ∀ e : Regex, e.isCharSetLike = true →
      (w ∈ (I.assignment leaf).leaf e ↔ ∃ c, w = [c] ∧ e.Denotes I c) := by
    intro e he
    show (w ∈ if e.isCharSetLike then I.characters e else leaf e) ↔ _
    rw [if_pos he]
    exact Iff.rfl
  induction e using inductionOn with
  | literal t =>
    obtain ⟨c, rfl⟩ := List.length_eq_one_iff.1 (beq_iff_eq.1 h)
    constructor
    · intro hw
      exact ⟨c, hw, rfl⟩
    · rintro ⟨d, rfl, hd⟩
      exact hd.symm
  | choice l ih =>
    rw [mem_language_choice]
    constructor
    · rintro ⟨e, he, hw⟩
      obtain ⟨c, hc, hd⟩ := (ih e he (allCharSetLike_iff.1 h e he)).1 hw
      exact ⟨c, hc, denotesSome_iff.2 ⟨e, he, hd⟩⟩
    · rintro ⟨c, hc, hd⟩
      obtain ⟨e, he, hd⟩ := denotesSome_iff.1 hd
      exact ⟨e, he, (ih e he (allCharSetLike_iff.1 h e he)).2 ⟨c, hc, hd⟩⟩
  | set s => exact Iff.rfl
  | primitive p => exact leaf_iff _ h
  | syntaxClass k => exact leaf_iff _ h
  | category k => exact leaf_iff _ h
  | complement e _ => exact leaf_iff _ h
  | intersection l _ => exact leaf_iff _ h
  | _ => cases h

/-! ## Normalisation -/

/-- **The functions that build trees keep the language**, whatever the leaves of which a tree says
    nothing more may match. -/
theorem language_normalization (v : Assignment) :
    (∀ e, e.isCharSetLike = true → ∀ w ∈ language v e, ∃ c, w = [c]) ∧
    (∀ t, language v (text t) = {t}) ∧
    (∀ l, language v (seq l) = (l.map (language v)).prod) ∧
    (∀ l w, w ∈ language v (alt l) ↔ ∃ e ∈ l, w ∈ language v e) ∧
    (∀ l, language v (union l) = language v (alt l)) ∧
    ∀ least most greedy e e', repeated least most greedy e = .ok e' →
      ∀ w, w ∈ language v e' ↔ ∃ k, least ≤ k ∧ (∀ m ∈ most, k ≤ m) ∧ w ∈ language v e ^ k := by
  refine ⟨fun e he w hw => exists_eq_singleton_of_mem_language he hw, language_text, language_seq,
    fun l w => mem_language_alt, ?_, fun _ _ _ _ _ h w => mem_language_repeated h⟩
  intro l
  ext w
  rw [mem_language_union, mem_language_alt]

/-- One or two times `ab` is `ab` or `abab`, whatever classes and categories hold. -/
theorem language_normalization_copies :
    ∃ e', repeated 1 (some 2) true (.literal ['a', 'b']) = .ok e' ∧
      ∀ w, w ∈ language ((⟨fun _ _ => False, fun _ => False, fun _ _ => False,
          fun _ _ => False⟩ : Interpretation).assignment fun _ => 0) e' ↔
        ∃ k, 1 ≤ k ∧ (∀ m ∈ some 2, k ≤ m) ∧ w ∈ ({['a', 'b']} : Language Char) ^ k :=
  ⟨_, rfl, (language_normalization _).2.2.2.2.2 1 (some 2) true (.literal ['a', 'b']) _ rfl⟩

end Regex

end RegexDialects
