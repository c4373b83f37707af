import RegexDialects.Dialect
import RegexDialects.Proofs.BracketAgreement
import RegexDialects.Proofs.QuantifierSpelling

/-!
# The notation that the dialects share

Letters, dots, escapes for words, bracket expressions, groups, bars and quantifiers: for these the
dialects have the same tokens, but Emacs puts a backslash in front of parentheses, bars and braces
(`mark`). An expression of this notation is a tree (`Expression`), which is written in a dialect
(`Expression.text`) and means the same in both: a list of branches, or a reason to refuse it
(`Expression.branches`).

A reader takes an expression from the front, and so does the tree: it says what stands there, and
goes on with the rest. A branch is empty if it ends at once.
-/

set_option autoImplicit false

namespace RegexDialects.Pattern.Shared

/-- What stands in front of a parenthesis, a bar or a brace for it to be an operator. -/
def mark : Dialect → List Char
  | .emacs => ['\\']
  | .pcre => []

/-! ## Quantifiers -/

/-- A number as it is written: it may have leading zeros, and be too large to be read. -/
structure Numeral where
  digits : List Char
  nonempty : digits ≠ []
  isDigit_of_mem : ∀ c ∈ digits, c.isDigit = true

def Numeral.value (n : Numeral) : Nat :=
  decimalValue n.digits

/-- What stands in braces: `n`, `n,`, `n,m` or `,m`. -/
structure Interval where
  least? : Option Numeral
  comma : Bool
  most? : Option Numeral
  comma_of_most : most?.isSome = true → comma = true
  some_number : least?.isSome = true ∨ most?.isSome = true

/-- The digits of a number that may be missing. -/
def digits : Option Numeral → List Char
  | none => []
  | some n => n.digits

/-- Whether a number that may be missing is small enough to be read. -/
def fits (n : Option Numeral) : Bool :=
  n.all fun n => n.value ≤ maxNumber

namespace Interval

variable (i : Interval)

def text : List Char :=
  digits i.least? ++ ((if i.comma then [','] else []) ++ digits i.most?)

/-- The bounds that are meant, if both numbers can be read. -/
def bounds? : Except ParseErrorKind Bounds :=
  if fits i.least? && fits i.most? then
    .ok ⟨i.least?.map Numeral.value, i.comma, i.most?.map Numeral.value⟩
  else .error .badRepetition

end Interval

/-- A quantifier as it is written. Braces have no lazy form, since Emacs has none. -/
inductive Quantity where
  | operator (c : Char) (least : Nat) (most : Option Nat)
      (isOperator : operatorBounds? c = some (least, most)) (greedy : Bool)
  | interval (i : Interval)

namespace Quantity

def text (d : Dialect) : Quantity → List Char
  | operator c _ _ _ greedy => c :: if greedy then [] else ['?']
  | interval i => mark d ++ '{' :: (i.text ++ (mark d ++ ['}']))

/-- The quantifier that is meant, if its numbers can be read. -/
def quantifier : Quantity → Except ParseErrorKind Quantifier
  | operator _ least most _ greedy => .ok ⟨least, most, greedy⟩
  | interval i => i.bounds?.map fun b => ⟨b.least, b.most, true⟩

end Quantity

/-- The text of a quantifier that may be missing. -/
def quantityText (d : Dialect) : Option Quantity → List Char
  | none => []
  | some q => q.text d

/-- Applies a quantifier that may be missing to `e`, which `budget` more levels may enclose. -/
def quantify (budget : Nat) (e : Regex) : Option Quantity → Except ParseErrorKind Regex
  | none => .ok e
  | some q => do
    let q ← q.quantifier
    if q.isInverted then .error .invertedRepetition
    else
      match budget with
      | 0 => .error .tooDeep
      | _ + 1 => (Regex.repeated q.least q.most q.greedy e).mapError .construct

/-! ## Expressions -/

/-- The escapes with the same meaning in both dialects. -/
inductive Escape where
  | word
  | notWord
  | boundary
  | notBoundary

namespace Escape

def char : Escape → Char
  | word => 'w'
  | notWord => 'W'
  | boundary => 'b'
  | notBoundary => 'B'

def primitive : Escape → Primitive
  | word => .wordChar
  | notWord => .notWordChar
  | boundary => .wordBoundary
  | notBoundary => .notWordBoundary

end Escape

/-- A bracket expression that is accepted. -/
structure Bracket where
  /-- What stands behind the opening bracket, up to and including the closing one. -/
  body : List Char
  shared : SharedBody body
  tree : Regex
  read_eq : Emacs.brackets.read body = .ok (tree, [])

/-- An atom that encloses no expression. -/
inductive Leaf where
  | letter (c : Char) (isAlpha : c.isAlpha = true)
  | dot
  | escape (x : Escape)
  | bracket (b : Bracket)

namespace Leaf

def text : Leaf → List Char
  | letter c _ => [c]
  | dot => ['.']
  | escape x => ['\\', x.char]
  | bracket b => '[' :: b.body

def tree : Leaf → Regex
  | letter c _ => .literal [c]
  | dot => .primitive .notNewline
  | escape x => .primitive x.primitive
  | bracket b => b.tree

end Leaf

/-- How a group begins. -/
def opening (d : Dialect) (capturing : Bool) : List Char :=
  mark d ++ '(' :: if capturing then [] else ['?', ':']

/-- The tree of a group. -/
def wrap (capturing : Bool) (e : Regex) : Regex :=
  if capturing then .group e else e

/-- An expression, by what stands at its front. -/
inductive Expression where
  | done
  /-- The branch is over, and another one begins. -/
  | bar (rest : Expression)
  | leaf (a : Leaf) (q : Option Quantity) (rest : Expression)
  | group (capturing : Bool) (body : Expression) (q : Option Quantity) (rest : Expression)

namespace Expression

def text (d : Dialect) : Expression → List Char
  | done => []
  | bar rest => mark d ++ '|' :: rest.text d
  | leaf a q rest => a.text ++ (quantityText d q ++ rest.text d)
  | group capturing body q rest =>
    opening d capturing ++
      (body.text d ++ (mark d ++ ')' :: (quantityText d q ++ rest.text d)))

/-- How many groups capture. -/
def captures : Expression → Nat
  | done => 0
  | bar rest => rest.captures
  | leaf _ _ rest => rest.captures
  | group capturing body _ rest => capturing.toNat + body.captures + rest.captures

/-- The trees of the branches, where `pieces` stand in front of the first one. An expression that
    `levels` more levels may be nested in is refused if it nests deeper. -/
def branches : Expression → Nat → List Regex → Except ParseErrorKind (List Regex)
  | done, _, pieces => .ok [.seq pieces]
  | bar rest, levels, pieces => (rest.branches levels []).map (.seq pieces :: ·)
  | leaf a q rest, levels, pieces => do
    let e ← quantify (levels - a.tree.repeatDepth) a.tree q
    rest.branches levels (pieces ++ [e])
  | group _ _ _ _, 0, _ => .error .tooDeep
  | group capturing body q rest, levels + 1, pieces => do
    let l ← body.branches levels []
    let e := wrap capturing (.alt l)
    let e ← quantify (levels + 1 - e.repeatDepth) e q
    rest.branches (levels + 1) (pieces ++ [e])

/-- The tree of an expression that is a whole pattern. -/
def tree (x : Expression) : Except ParseErrorKind Regex :=
  (x.branches maxDepth []).map .alt

end Expression

/-! ## What stands behind a piece -/

/-- Whether no quantifier of either dialect is at the front of `text`. -/
structure NoQuantifier (text : List Char) : Prop where
  follows : Pcre.Follows false text
  no_brace : ∀ l, text ≠ '\\' :: '{' :: l

/-- Whether an expression ends in front of `text`: the group around it closes, or nothing is
    left. -/
def Closes (d : Dialect) (text : List Char) : Prop :=
  text = [] ∨ ∃ l, text = mark d ++ ')' :: l

theorem noQuantifier_nil : NoQuantifier [] where
  follows := nofun
  no_brace := nofun

theorem noQuantifier_cons {c : Char} {text : List Char} (h : Pcre.quantifies c = false)
    (hc : c ≠ '\\') : NoQuantifier (c :: text) where
  follows := by
    intro d hd
    cases hd
    exact ⟨h, nofun⟩
  no_brace := by
    intro l heq
    exact hc (List.cons.inj heq).1

theorem noQuantifier_backslash {c : Char} {text : List Char} (h : c ≠ '{') :
    NoQuantifier ('\\' :: c :: text) where
  follows := by
    intro d hd
    cases hd
    exact ⟨rfl, nofun⟩
  no_brace := by
    intro l heq
    exact h (List.cons.inj (List.cons.inj heq).2).1

theorem noQuantifier_mark (d : Dialect) {c : Char} {text : List Char}
    (h : Pcre.quantifies c = false) (hc : c ≠ '\\') : NoQuantifier (mark d ++ c :: text) := by
  cases d with
  | emacs =>
    apply noQuantifier_backslash
    rintro rfl
    cases h
  | pcre => exact noQuantifier_cons h hc

theorem Closes.noQuantifier {d : Dialect} {text : List Char} (h : Closes d text) :
    NoQuantifier text := by
  rcases h with rfl | ⟨l, rfl⟩
  · exact noQuantifier_nil
  · exact noQuantifier_mark d rfl (by decide)

theorem quantifies_of_isAlpha {c : Char} (h : c.isAlpha = true) : Pcre.quantifies c = false := by
  rw [← Bool.not_eq_true]
  intro hq
  simp only [Pcre.quantifies, Bool.or_eq_true, beq_iff_eq] at hq
  rcases hq with ((rfl | rfl) | rfl) | rfl <;> cases h

theorem Leaf.noQuantifier (a : Leaf) (rest : List Char) : NoQuantifier (a.text ++ rest) := by
  cases a with
  | letter c hc =>
    apply noQuantifier_cons (quantifies_of_isAlpha hc)
    rintro rfl
    cases hc
  | dot => exact noQuantifier_cons rfl (by decide)
  | escape x =>
    apply noQuantifier_backslash
    cases x <;> decide
  | bracket b => exact noQuantifier_cons rfl (by decide)

/-- Nothing at the front of an expression, or behind it, is taken for a quantifier. -/
theorem Expression.noQuantifier (x : Expression) {d : Dialect} {rest : List Char}
    (h : Closes d rest) : NoQuantifier (x.text d ++ rest) := by
  cases x with
  | done => exact h.noQuantifier
  | bar x =>
    rw [text, List.append_assoc]
    exact noQuantifier_mark d rfl (by decide)
  | leaf a q x =>
    rw [text, List.append_assoc]
    exact a.noQuantifier _
  | group capturing body q x =>
    rw [text, opening, List.append_assoc, List.append_assoc]
    exact noQuantifier_mark d rfl (by decide)

end RegexDialects.Pattern.Shared
