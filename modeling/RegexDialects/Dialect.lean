import RegexDialects.Enumeration
import RegexDialects.Form.Render
import RegexDialects.Pattern.Emacs.Expression
import RegexDialects.Pattern.Pcre.Expression

/-!
# Dialects, and going between notations

The two notations a pattern can be read in, and the way through: a pattern of one dialect is read
into a tree, and the tree written in a form of output. Which dialect a tree came from makes no
difference to what is written.
-/

set_option autoImplicit false

namespace RegexDialects

/-- A notation that patterns are read in. -/
inductive Dialect where
  | emacs
  | pcre
  deriving DecidableEq, Repr, Inhabited

/-- Reads the characters of a pattern. -/
def Dialect.read : Dialect → List Char → Except Pattern.ParseError Regex
  | emacs => Pattern.Emacs.parse
  | pcre => Pattern.Pcre.parse

/-- Reads a pattern. -/
def Regex.parse (dialect : Dialect) (pattern : String) : Except Pattern.ParseError Regex :=
  dialect.read pattern.toList

/-- Why a pattern could not be brought into a form of output. -/
inductive ConvertError where
  | parse (e : Pattern.ParseError)
  | render (e : RenderError)
  deriving DecidableEq

/-- The wording of an error. -/
def ConvertError.message : ConvertError → String
  | parse e => e.message
  | render e => e.message

/-- Brings a pattern into a form of output. -/
def convert (dialect : Dialect) (target : Target) (pattern : String) :
    Except ConvertError String :=
  match Regex.parse dialect pattern with
  | .error e => .error (.parse e)
  | .ok tree => (tree.render target).mapError .render

end RegexDialects
