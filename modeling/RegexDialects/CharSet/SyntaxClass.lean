/-!
# Syntax classes

The classes that an Emacs syntax table sorts characters into, asked for in a pattern by the code
character after `\s`. Every major mode has a table of its own, so a class stays a name here.
-/

set_option autoImplicit false

namespace RegexDialects

/-- A class of the syntax table. -/
inductive SyntaxClass where
  | whitespace
  | punctuation
  | word
  | symbol
  | openParenthesis
  | closeParenthesis
  | expressionPrefix
  | stringQuote
  | pairedDelimiter
  | escape
  | characterQuote
  | commentStart
  | commentEnd
  | stringDelimiter
  | commentDelimiter
  deriving DecidableEq, Repr, Inhabited

namespace SyntaxClass

/-- The class selected by a code character. White space has two codes. -/
def ofCode? : Char → Option SyntaxClass
  | '-' | ' ' => some whitespace
  | '.' => some punctuation
  | 'w' => some word
  | '_' => some symbol
  | '(' => some openParenthesis
  | ')' => some closeParenthesis
  | '\x27' => some expressionPrefix
  | '\x22' => some stringQuote
  | '$' => some pairedDelimiter
  | '\\' => some escape
  | '/' => some characterQuote
  | '<' => some commentStart
  | '>' => some commentEnd
  | '|' => some stringDelimiter
  | '!' => some commentDelimiter
  | _ => none

/-- The name of a class in the `rx` form. -/
def name : SyntaxClass → String
  | whitespace => "whitespace"
  | punctuation => "punctuation"
  | word => "word"
  | symbol => "symbol"
  | openParenthesis => "open-parenthesis"
  | closeParenthesis => "close-parenthesis"
  | expressionPrefix => "expression-prefix"
  | stringQuote => "string-quote"
  | pairedDelimiter => "paired-delimiter"
  | escape => "escape"
  | characterQuote => "character-quote"
  | commentStart => "comment-start"
  | commentEnd => "comment-end"
  | stringDelimiter => "string-delimiter"
  | commentDelimiter => "comment-delimiter"

end SyntaxClass

end RegexDialects
