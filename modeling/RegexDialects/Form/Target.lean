/-!
# Output forms

The three forms a tree can be written in. Emacs's own string notation is not among them: Emacs makes
it from the `rx` form.
-/

set_option autoImplicit false

namespace RegexDialects

/-- A form of output. -/
inductive Target where
  | pcre
  | rx
  | sre
  deriving DecidableEq, Repr, Inhabited

/-- A name that no form of output has. -/
structure UnknownTarget where
  name : String
  deriving DecidableEq, Repr

/-- The wording of the error. -/
def UnknownTarget.message (e : UnknownTarget) : String :=
  s!"unknown output syntax `{e.name}` (expected pcre, rx or sre)"

namespace Target

/-- The name by which a form is asked for. -/
def name : Target → String
  | pcre => "pcre"
  | rx => "rx"
  | sre => "sre"

/-- The name of a form in messages. -/
def title : Target → String
  | pcre => "PCRE"
  | rx => "rx"
  | sre => "SRE"

/-- The form of a name. Capital and small ASCII letters are the same here. -/
def ofName (name : String) : Except UnknownTarget Target :=
  match [pcre, rx, sre].find? fun t => t.name.toList == name.toList.map Char.toLower with
  | some t => .ok t
  | none => .error ⟨name⟩

end Target

end RegexDialects
