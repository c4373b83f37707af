/-!
# Named character classes

The classes written `[:name:]` inside a bracket expression. Only their names live here: which
characters a class holds depends on the engine that runs the pattern, and no form of output needs to
know. Three of them exist only in Emacs, and one more has no counterpart in SRE.
-/

set_option autoImplicit false

namespace RegexDialects

/-- A class of characters known by name. -/
inductive PosixClass where
  | alnum
  | alpha
  | ascii
  | blank
  | cntrl
  | digit
  | graph
  | lower
  | multibyte
  | nonascii
  | print
  | punct
  | space
  | unibyte
  | upper
  | word
  | xdigit
  deriving DecidableEq, Repr, Inhabited

namespace PosixClass

/-- Every named class, in alphabetical order. -/
def all : List PosixClass :=
  [.alnum, .alpha, .ascii, .blank, .cntrl, .digit, .graph, .lower, .multibyte, .nonascii, .print,
   .punct, .space, .unibyte, .upper, .word, .xdigit]

/-- The name of a class, as written between the colons. -/
def name : PosixClass → String
  | alnum => "alnum"
  | alpha => "alpha"
  | ascii => "ascii"
  | blank => "blank"
  | cntrl => "cntrl"
  | digit => "digit"
  | graph => "graph"
  | lower => "lower"
  | multibyte => "multibyte"
  | nonascii => "nonascii"
  | print => "print"
  | punct => "punct"
  | space => "space"
  | unibyte => "unibyte"
  | upper => "upper"
  | word => "word"
  | xdigit => "xdigit"

/-- The class of a name. -/
def ofName? (name : String) : Option PosixClass :=
  all.find? (·.name == name)

/-- Whether PCRE knows the class. -/
def inPcre : PosixClass → Bool
  | multibyte | nonascii | unibyte => false
  | _ => true

/-- Whether SRE has a class of the same name. -/
def inSre : PosixClass → Bool
  | multibyte | nonascii | unibyte | word => false
  | _ => true

theorem mem_all (k : PosixClass) : k ∈ all := by
  cases k <;> decide

theorem ofName?_name (k : PosixClass) : ofName? k.name = some k := by
  cases k <;> decide

end PosixClass

end RegexDialects
