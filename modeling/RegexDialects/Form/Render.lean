import RegexDialects.Form.Pcre
import RegexDialects.Form.Rx
import RegexDialects.Form.Sre

/-!
# Writing a tree

One entry for all forms of output. The writers themselves do not know their own name; it is added to
the error here.
-/

set_option autoImplicit false

namespace RegexDialects

/-- The text of a tree in a form of output. -/
def Form.text (target : Target) (e : Regex) : Except Unwritable (List Char) :=
  match target with
  | .pcre => (Form.Pcre.render e).map (·.text)
  | .rx => Form.Rx.render e
  | .sre => Form.Sre.render e

/-- Writes a tree in a form of output. -/
def Regex.render (target : Target) (e : Regex) : Except RenderError String :=
  match Form.text target e with
  | .ok text => .ok (String.ofList text)
  | .error cause => .error ⟨target, cause⟩

end RegexDialects
