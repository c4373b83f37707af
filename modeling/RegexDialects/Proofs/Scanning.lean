import RegexDialects.Pattern.Bracket
import RegexDialects.Pattern.Quantifier
import RegexDialects.Proofs.Outcome

/-!
# The tasks that the dialects share

Quantifiers and bracket expressions are read by loops, and the dialects share them: a row of
quantifiers takes a turn for each quantifier, a bracket expression for each member. Under way
numbers and runs of digits are read, names of classes, items, and the single characters or classes
that items are made of (`Scan`).
-/

set_option autoImplicit false

namespace RegexDialects.Pattern

/-- A quantifier has at least one character. -/
def QuantifierGrammar.TakesSome (g : QuantifierGrammar) : Prop :=
  ∀ ⦃text rest : List Char⦄ ⦃q : Quantifier⦄, g.read? text = .ok (some (q, rest)) →
    Advances rest text

/-- A task that the dialects share. -/
inductive Scan where
  /-- What is left of a row of quantifiers: there may be `budget` more, and they apply to `e`. -/
  | quantifiers (g : QuantifierGrammar) (hg : g.TakesSome) (budget : Nat) (e : Regex)
    (text : List Char)
  /-- A number in braces, which open at `start`. -/
  | number (start text : List Char)
  | digits (text : List Char)
  /-- What is left of a bracket expression. -/
  | members (g : BracketGrammar) (whole : List Char) (first : Bool) (text : List Char)
  /-- A named class, if there is one. -/
  | name (g : BracketGrammar) (text : List Char)
  /-- A character, a class, or a range. -/
  | item (g : BracketGrammar) (whole text : List Char)
  /-- A character or a class. -/
  | single (g : BracketGrammar) (whole text : List Char)

namespace Scan

/-- What is left of the pattern when the task begins. -/
def rest : Scan → List Char
  | quantifiers _ _ _ _ text => text
  | number _ text => text
  | digits text => text
  | members _ _ _ text => text
  | name _ text => text
  | item _ _ text => text
  | single _ _ text => text

/-- How many more calls may come before a character is taken. -/
def rank : Scan → Nat
  | members _ _ _ _ => 2
  | item _ _ _ => 1
  | number _ _ => 1
  | _ => 0

def IsAtom : Scan → Prop
  | single _ _ _ => True
  | _ => False

/-- Where the task stops, or why it is refused. -/
def stops : Scan → Except Fault (List Char)
  | quantifiers g _ budget e text => (quantified g budget e text).map Prod.snd
  | number start text => (Bounds.number? start text).map Prod.snd
  | digits text => .ok (afterDigits text)
  | members g whole first text => (g.members whole first text).map Prod.snd
  | name g text => (readClass? g.negatedNames text).map fun r => (r.map Prod.snd).getD text
  | item g whole text => (g.item whole text).map Prod.snd
  | single g whole text => (g.atom whole text).map Prod.snd

/-- A loop takes a turn. -/
inductive Turns : Scan → Scan → Prop where
  | quantifier {g : QuantifierGrammar} (hg : g.TakesSome) {budget : Nat} {e e' : Regex}
      {text rest : List Char} {q : Quantifier}
      (hread : g.read? (g.skip text) = .ok (some (q, rest))) (horder : q.isInverted = false)
      (hrepeated : Regex.repeated q.least q.most q.greedy e = .ok e') :
      Turns (.quantifiers g hg (budget + 1) e text) (.quantifiers g hg budget e' rest)
  | member {g : BracketGrammar} {whole text rest : List Char} {first : Bool} {e : Regex}
      (h : g.member? whole first text = .ok (some e, rest)) :
      Turns (.members g whole first text) (.members g whole false rest)

/-- A function is called. -/
inductive Calls : Scan → Scan → Prop where
  | digits (start text : List Char) : Calls (.number start text) (.digits text)
  | name (g : BracketGrammar) (whole : List Char) (first : Bool) (text : List Char) :
      Calls (.members g whole first ('[' :: text)) (.name g ('[' :: text))
  | item {g : BracketGrammar} (whole : List Char) {first : Bool} {c : Char} {text : List Char}
      (hclose : ¬ (c = ']' ∧ first = false))
      (hname : readClass? g.negatedNames (c :: text) = .ok none) :
      Calls (.members g whole first (c :: text)) (.item g whole (c :: text))
  | single (g : BracketGrammar) (whole text : List Char) :
      Calls (.item g whole text) (.single g whole text)
  | rangeEnd {g : BracketGrammar} {whole text rest : List Char} {lo c : Char}
      (hlo : g.atom whole text = .ok (.char lo, '-' :: c :: rest)) (hc : c ≠ ']') :
      Calls (.item g whole text) (.single g whole (c :: rest))

variable {t t' : Scan} {text : List Char} {f : Fault}

/-! ## Turns -/

theorem turn_advances (h : Turns t t') : Advances t'.rest t.rest := by
  cases h with
  | @quantifier g hg _ _ _ _ _ _ hread _ _ => exact (hg hread).suffix_of (g.skip_suffix _)
  | @member g _ _ _ _ _ h => exact g.member?_advances h

theorem turn_stops (h : Turns t t') : t.stops = t'.stops := by
  cases h with
  | @quantifier g hg budget e e' text rest q hread horder hrepeated =>
    show (quantified g (budget + 1) e text).map Prod.snd = _
    unfold quantified
    simp only [hread, horder, hrepeated, Bool.false_eq_true, if_false]
    rfl
  | @member g whole text rest first e h =>
    show (g.members whole first text).map Prod.snd = (g.members whole false rest).map Prod.snd
    rw [BracketGrammar.members_eq, h]
    simp only
    cases g.members whole false rest <;> rfl

/-! ## Calls -/

theorem call_advances (h : Calls t t') :
    Advances t'.rest t.rest ∨ t'.rest <:+ t.rest ∧ t'.rank < t.rank := by
  cases h with
  | digits => exact Or.inr ⟨List.suffix_refl _, Nat.zero_lt_one⟩
  | name => exact Or.inr ⟨List.suffix_refl _, Nat.zero_lt_two⟩
  | item => exact Or.inr ⟨List.suffix_refl _, Nat.one_lt_two⟩
  | single => exact Or.inr ⟨List.suffix_refl _, Nat.zero_lt_one⟩
  | @rangeEnd g _ _ _ _ _ hlo _ =>
    exact Or.inl (.of_suffix (List.suffix_cons _ _) (g.atom_advances hlo))

theorem members_of_member?_error {g : BracketGrammar} {whole : List Char} {first : Bool}
    (h : g.member? whole first text = .error f) : g.members whole first text = .error f := by
  rw [BracketGrammar.members_eq, h]

/-- What a called function refuses, the caller refuses. -/
theorem call_refused (h : Calls t t') (hf : t'.stops = .error f) : t.stops = .error f := by
  cases h with
  | digits => cases hf
  | name g whole first text =>
    have hname := map_eq_error_iff.1 hf
    refine map_eq_error_iff.2 (members_of_member?_error ?_)
    have hbracket : ¬ ('[' = ']' ∧ first = false) := by simp
    simp only [BracketGrammar.member?, if_neg hbracket, hname]
  | item whole hclose hname =>
    have hitem := map_eq_error_iff.1 hf
    refine map_eq_error_iff.2 (members_of_member?_error ?_)
    simp only [BracketGrammar.member?, if_neg hclose, hname, hitem]
  | single g whole text =>
    refine map_eq_error_iff.2 ?_
    simp only [BracketGrammar.item, map_eq_error_iff.1 hf]
  | rangeEnd hlo hc =>
    refine map_eq_error_iff.2 ?_
    simp only [BracketGrammar.item, hlo, if_neg hc, BracketGrammar.rangeEnd, map_eq_error_iff.1 hf]

/-! ## Stops -/

theorem stops_suffix (h : t.stops = .ok text) : text <:+ t.rest := by
  cases t with
  | digits text =>
    cases h
    exact afterDigits_suffix text
  | name g text =>
    obtain ⟨r, hread, rfl⟩ := map_eq_ok_iff.1 h
    cases r with
    | none => exact List.suffix_refl _
    | some r => exact (readClass?_advances hread).1
  | quantifiers g hg budget e text =>
    obtain ⟨r, hread, rfl⟩ := map_eq_ok_iff.1 h
    exact quantified_suffix hread
  | number start text =>
    obtain ⟨r, hread, rfl⟩ := map_eq_ok_iff.1 h
    exact Bounds.number?_suffix hread
  | members g whole first text =>
    obtain ⟨r, hread, rfl⟩ := map_eq_ok_iff.1 h
    exact (g.members_advances hread).1
  | item g whole text =>
    obtain ⟨r, hread, rfl⟩ := map_eq_ok_iff.1 h
    exact (g.item_advances hread).1
  | single g whole text =>
    obtain ⟨r, hread, rfl⟩ := map_eq_ok_iff.1 h
    exact (g.atom_advances hread).1

theorem atom_advances (ht : t.IsAtom) (h : t.stops = .ok text) : Advances text t.rest := by
  cases t with
  | single g whole text =>
    obtain ⟨r, hread, rfl⟩ := map_eq_ok_iff.1 h
    exact g.atom_advances hread
  | _ => exact ht.elim

theorem rank_le (t : Scan) : t.rank ≤ 2 := by
  unfold rank
  split <;> omega

end Scan

/-! ## Refusals of quantifiers -/

/-- A row of quantifiers is refused if the next one cannot be read. -/
theorem quantified_of_read?_error {g : QuantifierGrammar} {budget : Nat} {e : Regex}
    {text : List Char} {f : Fault} (h : g.read? (g.skip text) = .error f) :
    quantified g budget e text = .error f := by
  unfold quantified
  rw [h]

namespace Bounds

variable {closing start text rest : List Char} {f : Fault}

/-- Bounds are refused for their first number. -/
theorem read?_of_number?_error (h : number? start text = .error f) :
    read? closing start text = .error f := by
  simp only [read?, h]

/-- Bounds are refused for their second number. -/
theorem read?_of_upper?_error {n : Option Nat} (hn : number? start text = .ok (n, ',' :: rest))
    (h : number? start rest = .error f) : read? closing start text = .error f := by
  simp only [read?, hn, comma?, upper?, h]

end Bounds

end RegexDialects.Pattern
