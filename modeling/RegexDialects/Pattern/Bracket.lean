import RegexDialects.Pattern.Fault
import RegexDialects.Tree.SetAlgebra

/-!
# Bracket expressions

The reader of `[…]`, shared by the dialects. A dialect says how one character of a bracket
expression is spelled, and whether the name of a class may be negated (`BracketGrammar`); the rest
is common: a `]` in front is an ordinary character, a `-` between two characters makes a range, and
`[:name:]` is a named class.

A positive expression is the union of its members, a negated one the intersection of their
complements.
-/

set_option autoImplicit false

namespace RegexDialects.Pattern

/-! ## Named classes -/

/-- The characters that may stand in the name of a class. -/
def isClassNameChar (c : Char) : Bool :=
  c != ':' && c != ']'

/-- A class by the name that was written for it, which may be negated by a `^` in front where
    `negatable`. -/
def namedClass? (negatable : Bool) : List Char → Option Regex
  | '^' :: name =>
    if negatable then
      (PosixClass.ofName? (String.ofList name)).map fun k => .complement (.set (.of (.posix k)))
    else none
  | name => (PosixClass.ofName? (String.ofList name)).map fun k => .set (.of (.posix k))

/-- Reads a named class, if `text` starts with one. What is not closed by `:]` is no class and will
    be read as characters. -/
def readClass? (negatable : Bool) (text : List Char) : Except Fault (Option (Regex × List Char)) :=
  match text with
  | '[' :: '.' :: _ => .error ⟨.collatingElement, text, text⟩
  | '[' :: '=' :: _ => .error ⟨.collatingElement, text, text⟩
  | '[' :: ':' :: body =>
    match body.dropWhile isClassNameChar with
    | ':' :: ']' :: rest =>
      match namedClass? negatable (body.takeWhile isClassNameChar) with
      | some e => .ok (some (e, rest))
      | none => .error ⟨.unknownPosixClass, text, rest⟩
    | _ => .ok none
  | _ => .ok none

theorem readClass?_advances {negatable : Bool} {text rest : List Char} {e : Regex}
    (h : readClass? negatable text = .ok (some (e, rest))) : Advances rest text := by
  unfold readClass? at h
  split at h
  · simp at h
  · simp at h
  · next body =>
    split at h
    · next hbody =>
      split at h
      · cases h
        have s : ':' :: ']' :: rest <:+ body := hbody ▸ List.dropWhile_suffix _
        have s' : rest <:+ body :=
          ((List.suffix_cons ']' rest).trans (List.suffix_cons ':' _)).trans s
        exact .cons _ (s'.trans (List.suffix_cons _ _))
      · simp at h
    · simp at h
  · simp at h

/-! ## Members -/

/-- One item of a bracket expression that may be the end of a range. -/
inductive BracketAtom where
  | char (c : Char)
  /-- A class, which can be no end of a range. -/
  | tree (e : Regex)

/-- How a dialect spells the items of a bracket expression. -/
structure BracketGrammar where
  /-- Whether `[:^name:]` is the complement of `[:name:]`. -/
  negatedNames : Bool
  /-- Reads one item. The first argument is the text of the whole expression. -/
  atom : List Char → List Char → Reading BracketAtom
  atom_advances : ∀ {whole text rest a}, atom whole text = .ok (a, rest) → Advances rest text

namespace BracketGrammar

variable (g : BracketGrammar)

/-- Reads the end of a range whose first character is `lo`. `start` is where the range starts. -/
def rangeEnd (whole start : List Char) (lo : Char) (text : List Char) : Reading Regex :=
  match g.atom whole text with
  | .error f => .error f
  | .ok (.char hi, rest) =>
    if lo ≤ hi then .ok (.set (.of (.range lo hi)), rest) else .error ⟨.badRange, start, rest⟩
  | .ok (.tree _, rest) => .error ⟨.badRange, start, rest⟩

/-- Reads one item or one range. -/
def item (whole text : List Char) : Reading Regex :=
  match g.atom whole text with
  | .error f => .error f
  | .ok (.tree e, rest) => .ok (e, rest)
  | .ok (.char lo, rest) =>
    match rest with
    | '-' :: c :: rest' =>
      -- A dash before the closing bracket stands for itself.
      if c = ']' then .ok (.set (.of (.char lo)), rest)
      else g.rangeEnd whole text lo (c :: rest')
    | _ => .ok (.set (.of (.char lo)), rest)

/-- Reads the next member, or the closing bracket (`none`). The bracket does not close in front of
    the first member. -/
def member? (whole : List Char) (first : Bool) (text : List Char) : Reading (Option Regex) :=
  match text with
  | [] => .error ⟨.unmatchedBracket, whole, []⟩
  | c :: rest =>
    if c = ']' ∧ first = false then .ok (none, rest)
    else
      match readClass? g.negatedNames text with
      | .error f => .error f
      | .ok (some (e, rest)) => .ok (some e, rest)
      | .ok none =>
        match g.item whole text with
        | .error f => .error f
        | .ok (e, rest) => .ok (some e, rest)

theorem rangeEnd_advances {whole start text rest : List Char} {lo : Char} {e : Regex}
    (h : g.rangeEnd whole start lo text = .ok (e, rest)) : Advances rest text := by
  unfold rangeEnd at h
  split at h
  · simp at h
  · next ha =>
    split at h
    · cases h
      exact g.atom_advances ha
    · simp at h
  · simp at h

theorem item_advances {whole text rest : List Char} {e : Regex}
    (h : g.item whole text = .ok (e, rest)) : Advances rest text := by
  unfold item at h
  split at h
  · simp at h
  · next ha =>
    cases h
    exact g.atom_advances ha
  · next lo mid ha =>
    have a := g.atom_advances ha
    split at h
    · next c after =>
      split at h
      · cases h
        exact a
      · exact (g.rangeEnd_advances h).suffix_of ((List.suffix_cons _ _).trans a.1)
    · cases h
      exact a

theorem member?_advances {whole text rest : List Char} {first : Bool} {e : Option Regex}
    (h : g.member? whole first text = .ok (e, rest)) : Advances rest text := by
  unfold member? at h
  split at h
  · simp at h
  · split at h
    · cases h
      exact .cons _ (List.suffix_refl _)
    · split at h
      · simp at h
      · next hc =>
        cases h
        exact readClass?_advances hc
      · split at h
        · simp at h
        · next hi =>
          cases h
          exact g.item_advances hi

/-- Reads all members and the closing bracket. -/
def members (whole : List Char) (first : Bool) (text : List Char) : Reading (List Regex) :=
  match h : g.member? whole first text with
  | .error f => .error f
  | .ok (none, rest) => .ok ([], rest)
  | .ok (some e, rest) =>
    have : rest.length < text.length := (g.member?_advances h).2
    match members whole false rest with
    | .error f => .error f
    | .ok (l, rest') => .ok (e :: l, rest')
termination_by text.length

/-- Members, one step at a time. -/
theorem members_eq (whole : List Char) (first : Bool) (text : List Char) :
    g.members whole first text =
      match g.member? whole first text with
      | .error f => .error f
      | .ok (none, rest) => .ok ([], rest)
      | .ok (some e, rest) =>
        match g.members whole false rest with
        | .error f => .error f
        | .ok (l, rest') => .ok (e :: l, rest') := by
  rw [members]
  split
  · next h => rw [h]
  · next h => rw [h]
  · next h => simp only [h]

theorem members_advances {whole text rest : List Char} {first : Bool} {l : List Regex}
    (h : g.members whole first text = .ok (l, rest)) : Advances rest text := by
  induction hn : text.length using Nat.strongRecOn generalizing first text l with
  | _ n ih =>
    unfold members at h
    split at h
    · simp at h
    · next hm =>
      cases h
      exact g.member?_advances hm
    · next e mid hm =>
      have a := g.member?_advances hm
      split at h
      · simp at h
      · next hl =>
        cases h
        exact (ih _ (hn ▸ a.2) hl rfl).suffix_of a.1

end BracketGrammar

/-! ## The whole expression -/

/-- The tree for the members of a bracket expression. -/
def bracketTree (negated : Bool) (members : List Regex) : Except ConstructError Regex :=
  if negated then do Regex.intersect (← members.mapM Regex.negate)
  else .ok (Regex.union members)

/-- Whether a `^` is next, and what follows it. -/
def caret? : List Char → Bool × List Char
  | '^' :: rest => (true, rest)
  | text => (false, text)

/-- Reads a bracket expression, at the place behind the opening bracket. -/
def BracketGrammar.read (g : BracketGrammar) (text : List Char) : Reading Regex :=
  let whole := '[' :: text
  match g.members whole true (caret? text).2 with
  | .error f => .error f
  | .ok (l, rest) =>
    match bracketTree (caret? text).1 l with
    | .error cause => .error ⟨.construct cause, whole, rest⟩
    | .ok e => .ok (e, rest)

theorem caret?_suffix (text : List Char) : (caret? text).2 <:+ text := by
  unfold caret?
  split
  · exact List.suffix_cons _ _
  · exact List.suffix_refl _

theorem BracketGrammar.read_advances {g : BracketGrammar} {text rest : List Char} {e : Regex}
    (h : g.read text = .ok (e, rest)) : Advances rest text := by
  simp only [BracketGrammar.read] at h
  split at h
  · simp at h
  · next hl =>
    split at h
    · simp at h
    · cases h
      exact (g.members_advances hl).suffix_of (caret?_suffix text)

end RegexDialects.Pattern
