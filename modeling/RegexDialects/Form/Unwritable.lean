import RegexDialects.CharSet.Category
import RegexDialects.CharSet.SyntaxClass
import RegexDialects.Form.Target
import RegexDialects.Tree.Basic

/-!
# What cannot be written

No form of output has words for every tree. A writer stops at the first node it cannot write and
gives the cause; which form it was writing is added by `Form.render`.
-/

set_option autoImplicit false

namespace RegexDialects

/-- A node for which a form has no words. -/
inductive Unwritable where
  | primitive (p : Primitive)
  /-- A repetition that prefers fewer copies, with bounds that have no such variant. -/
  | lazyRepeat
  /-- A reference to a group whose number is too large. -/
  | backrefIndex (n : Nat)
  | intersection
  | posixClass (k : PosixClass)
  | syntaxClass (k : SyntaxClass)
  | category (k : Category)
  /-- A complement of something that is not just a set or a class. -/
  | negation
  deriving DecidableEq, Repr

/-- A tree that could not be written in a form. -/
structure RenderError where
  target : Target
  cause : Unwritable
  deriving DecidableEq, Repr

/-- The wording of an error. -/
def RenderError.message (e : RenderError) : String :=
  subject ++ " cannot be written in " ++ e.target.title
where
  /-- What cannot be written. -/
  subject : String :=
    match e.cause with
    | .primitive p => s!"assertion `{p.rx}`"
    | .lazyRepeat => "lazy repetition of this kind"
    | .backrefIndex n => s!"backreference \\{n}"
    | .intersection => "intersection"
    | .posixClass k => s!"character class [:{k.name}:]"
    | .syntaxClass k => s!"syntax class `{k.name}`"
    | .category k => s!"character category `{k.name}`"
    | .negation => "negation of this element"

end RegexDialects
