import RegexDialects.Dialect

/-!
# The command line

What the program answers to its arguments. A pattern that is not among the arguments is the first
line of the input. Everything here is pure; `Main` only fetches the input and prints.
-/

set_option autoImplicit false

namespace RegexDialects.CommandLine

/-- How the program is called. -/
def usage : String :=
  "usage: rxtrans (-E|-P) (pcre|rx|sre|strings) [PATTERN]"

/-- Why the program has no answer. -/
inductive Failure where
  /-- Too few or too many arguments. -/
  | usage
  | unknownFlag (flag : String)
  /-- The first line of the input is not UTF-8. -/
  | badInput
  | parse (pattern : String) (e : Pattern.ParseError)
  | enumerate (e : EnumerationError)
  | target (e : UnknownTarget)
  | render (e : RenderError)

/-- The wording of a failure: what was being done, and then the cause. -/
def Failure.message : Failure → String
  | usage => CommandLine.usage
  | unknownFlag flag => s!"unknown input syntax `{flag}`\n{CommandLine.usage}"
  | badInput => "failed to read pattern from stdin: stream did not contain valid UTF-8"
  | parse pattern e => s!"cannot parse `{pattern}`: {e.message}"
  | enumerate e => s!"cannot list matching strings: {e.message}"
  | target e => e.message
  | render e => s!"cannot render as {e.target.name}: {e.message}"

/-- The dialect that a flag stands for. -/
def dialectOf (flag : String) : Except Failure Dialect :=
  if flag = "-E" then .ok .emacs
  else if flag = "-P" then .ok .pcre
  else .error (.unknownFlag flag)

/-- A line without the line ends at its end. -/
def trimLineEnd (line : List Char) : List Char :=
  (line.reverse.dropWhile fun c => c = '\n' || c = '\r').reverse

/-- The first line of the input, without its end. The line must be UTF-8, the rest need not be. -/
def firstLine (input : List UInt8) : Except Failure String :=
  match String.fromUTF8? (input.takeWhile (· != 10)).toByteArray with
  | some line => .ok (String.ofList (trimLineEnd line.toList))
  | none => .error .badInput

/-- The answer for a pattern. -/
def answerFor (dialect : Dialect) (output pattern : String) : Except Failure String := do
  let tree ← (Regex.parse dialect pattern).mapError (.parse pattern)
  if output = "strings" then
    let found ← tree.enumerate.mapError .enumerate
    return "\n".intercalate found
  else
    let target ← (Target.ofName output).mapError .target
    (tree.render target).mapError .render

/-- The answer to the arguments, when `input` is at hand. -/
def answer (args : List String) (input : List UInt8) : Except Failure String := do
  match args with
  | [flag, output] => answerFor (← dialectOf flag) output (← firstLine input)
  | [flag, output, pattern] => answerFor (← dialectOf flag) output pattern
  | _ => throw .usage

/-- What a run of the program leaves behind. -/
structure Outcome where
  exitCode : UInt32
  stdout : String
  stderr : String

/-- The exit code of a run that breaks off. -/
def brokenOff : UInt32 := 101

/-- Runs the program: an answer goes to standard output, a failure to standard error. There is
    neither if the numbers of groups run out. -/
def run (args : List String) (input : List UInt8) : Outcome :=
  match answer args input with
  | .ok text => ⟨0, text ++ "\n", ""⟩
  | .error (.parse pattern e) =>
    if e.kind = .overflow then ⟨brokenOff, "", e.kind.message ++ "\n"⟩
    else ⟨1, "", s!"rxtrans: {(Failure.parse pattern e).message}\n"⟩
  | .error failure => ⟨1, "", s!"rxtrans: {failure.message}\n"⟩

end RegexDialects.CommandLine
