import RegexDialects.Tree.Inspect

/-!
# Building trees in normal form

The functions here put trees together and normalise on the way:

* a sequence has at least two parts, none of them a sequence or empty, and no two literals side by
  side;
* a choice has at least two branches, none of them a choice or failing, and does not consist of
  plain sets and single characters alone: those fold into one set;
* a repetition has bounds in order and may occur at least once.

A sequence is built in two steps that have nothing to do with each other: `parts` opens nested
sequences, `joinText` merges literals that have come to stand side by side.
-/

set_option autoImplicit false

namespace RegexDialects

/-- Why a tree cannot be built. -/
inductive ConstructError where
  /-- The upper bound of a repetition is below the lower one. -/
  | invertedRepeat (least most : Nat)
  /-- Groups are numbered from one. -/
  | zeroBackref
  /-- Only what matches single characters has a complement. -/
  | notNegatable (e : Regex)
  /-- Only what matches single characters can be intersected. -/
  | notIntersectable (e : Regex)
  deriving DecidableEq, Inhabited

/-- The wording of an error. -/
def ConstructError.message : ConstructError → String
  | invertedRepeat least most =>
    s!"repetition upper bound {most} is smaller than lower bound {least}"
  | zeroBackref => "backreference index must be at least 1"
  | notNegatable e => "cannot negate " ++ e.inspect ++ ": not a character set"
  | notIntersectable e => "cannot intersect " ++ e.inspect ++ ": not a character set"

namespace Regex

/-! ## Texts and sequences -/

/-- Matches `cs` exactly. -/
def text (cs : List Char) : Regex :=
  if cs.isEmpty then .empty else .literal cs

mutual

/-- The parts a tree contributes to a sequence around it: nested sequences are opened at every
    depth, and what matches the empty text only contributes nothing. -/
def parts : Regex → List Regex
  | .empty => []
  | .sequence l => partsAll l
  | e => [e]

/-- The parts of all of `l`, in order. -/
def partsAll : List Regex → List Regex
  | [] => []
  | e :: l => parts e ++ partsAll l

end

/-- Merges literals that stand side by side. -/
def joinText : List Regex → List Regex
  | [] => []
  | .literal t :: l =>
    match joinText l with
    | .literal u :: m => .literal (t ++ u) :: m
    | m => .literal t :: m
  | e :: l => e :: joinText l

/-- All of `l`, one after the other. -/
def seq (l : List Regex) : Regex :=
  match joinText (partsAll l) with
  | [] => .empty
  | [e] => e
  | m => .sequence m

/-! ## Choices -/

/-- A tree as a plain set, if it is one or is a single character. -/
def plainSet? : Regex → Option CharSet
  | .set s => some s
  | .literal [c] => some (.of (.char c))
  | _ => none

/-- The branches a tree contributes to a choice around it: those of a choice, and none if it
    fails. -/
def branches : Regex → List Regex
  | .choice l => l
  | e => if e.isFail then [] else [e]

/-- One of `l`. Branches that are all plain sets or single characters become one set. -/
def alt (l : List Regex) : Regex :=
  match l.flatMap branches with
  | [] => fail
  | [e] => e
  | m =>
    match m.mapM plainSet? with
    | some sets => .set (sets.foldl .union .empty)
    | none => .choice m

/-! ## Repetitions and references -/

/-- `body`, at least `least` and at most `most` times. -/
def repeated (least : Nat) (most : Option Nat) (greedy : Bool) (body : Regex) :
    Except ConstructError Regex :=
  match most with
  | none => .ok (.repetition least none greedy body)
  | some m =>
    if m < least then .error (.invertedRepeat least m)
    else if m = 0 then .ok .empty
    else .ok (.repetition least (some m) greedy body)

/-- What group `n` matched. -/
def reference (n : Nat) : Except ConstructError Regex :=
  if n = 0 then .error .zeroBackref else .ok (.backref n)

end Regex

end RegexDialects
