import RegexDialects.Tree.Build

/-!
# Union, complement and intersection

The algebra of trees that match single characters. Plain sets are merged where that is possible;
everything else stays symbolic, under `complement` and `intersection`.

The intersection rests on De Morgan's law. Its operands, with nested intersections opened, are
sorted into two heaps (`Conjunct`): those that are complements of plain sets, whose excluded
characters are collected in one set, and all the others. The complement of what was collected stands
last in the result.
-/

set_option autoImplicit false

namespace RegexDialects

namespace Regex

mutual

/-- Whether a tree matches single characters, whatever those are. -/
def isCharSetLike : Regex → Bool
  | .set _ | .complement _ | .intersection _ | .syntaxClass _ | .category _ => true
  | .primitive p => p == .wordChar || p == .notWordChar
  | .literal t => t.length == 1
  | .choice l => allCharSetLike l
  | _ => false

/-- Whether all of `l` match single characters. -/
def allCharSetLike : List Regex → Bool
  | [] => true
  | e :: l => isCharSetLike e && allCharSetLike l

end

/-! ## Union -/

/-- The union of `operands`. The plain ones become one set, in the place of the first of them. -/
def union (operands : List Regex) : Regex :=
  match operands.filterMap plainSet? with
  | [] => alt operands
  | s :: sets =>
    let isSymbolic := fun e : Regex => (plainSet? e).isNone
    alt (operands.takeWhile isSymbolic ++ .set (sets.foldl .union s) ::
      (operands.dropWhile isSymbolic).filter isSymbolic)

/-! ## Complement -/

/-- The complement of a tree. The complement of a complement is the tree inside. -/
def negate : Regex → Except ConstructError Regex
  | .complement e => .ok e
  | .set s => .ok (.complement (.set s))
  | .syntaxClass k => .ok (.complement (.syntaxClass k))
  | .category k => .ok (.complement (.category k))
  | .primitive .wordChar => .ok (.primitive .notWordChar)
  | .primitive .notWordChar => .ok (.primitive .wordChar)
  | .literal [c] => .ok (.complement (.set (.of (.char c))))
  | e => .error (.notNegatable e)

/-! ## Intersection -/

/-- What one operand asks of a character. -/
inductive Conjunct where
  /-- Not to be in a plain set. -/
  | without (s : CharSet)
  /-- To be matched by a tree. -/
  | within (e : Regex)

/-- The set that a conjunct excludes. -/
def Conjunct.excluded? : Conjunct → Option CharSet
  | .without s => some s
  | .within _ => none

/-- The tree that a conjunct requires. -/
def Conjunct.required? : Conjunct → Option Regex
  | .without _ => none
  | .within e => some e

mutual

/-- The operands that a tree stands for: those of an intersection, at every depth. -/
def operands : Regex → List Regex
  | .intersection l => operandsAll l
  | e => [e]

/-- The operands of all of `l`, in order. -/
def operandsAll : List Regex → List Regex
  | [] => []
  | e :: l => operands e ++ operandsAll l

end

/-- What an operand asks of a character, if it is a matter of single characters. -/
def conjunct : Regex → Except ConstructError Conjunct
  | .complement (.set s) => .ok (.without s)
  | .literal [c] => .ok (.within (.set (.of (.char c))))
  | e => if e.isCharSetLike then .ok (.within e) else .error (.notIntersectable e)

/-- All of the conjuncts at once. -/
def conjunction (conjuncts : List Conjunct) : Regex :=
  let excluded := (conjuncts.filterMap Conjunct.excluded?).foldl CharSet.union .empty
  match conjuncts.filterMap Conjunct.required? with
  -- Without requirements even an empty complement stays: it is the set of all characters.
  | [] => .complement (.set excluded)
  | required =>
    match if excluded.isEmpty then required else required ++ [.complement (.set excluded)] with
    | [e] => e
    | l => .intersection l

/-- The intersection of `l`. -/
def intersect (l : List Regex) : Except ConstructError Regex :=
  ((operandsAll l).mapM conjunct).map conjunction

end Regex

end RegexDialects
