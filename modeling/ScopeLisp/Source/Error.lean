import ScopeLisp.Span

/-!
# Reading errors

Every reading error has a cause and the span of the text that it is about.
-/

namespace ScopeLisp

def maxNesting : Nat := 1000

namespace Source

/-- Why a source cannot be read. -/
inductive Cause where
  /-- An expression is wanted and the source is over. -/
  | unexpectedEnd
  /-- A character that starts no expression here. -/
  | unexpectedChar (c : Char)
  | unclosedList
  /-- A word of digits and dots that is no numeral. -/
  | invalidNumber (word : String)
  /-- A backslash in a string before anything but a double quote. -/
  | unknownEscape (c : Char)
  /-- One expression is wanted and more text follows it. -/
  | trailingContent
  | nestingTooDeep (limit : Nat)
deriving DecidableEq

def Cause.message : Cause → String
  | .unexpectedEnd => "unexpected end of input"
  | .unexpectedChar c => "unexpected character `" ++ c.toString ++ "`"
  | .unclosedList => "list is missing its closing `)`"
  | .invalidNumber word => "invalid number literal `" ++ word ++ "`"
  | .unknownEscape c => "unknown escape sequence `\\" ++ c.toString ++ "` in string"
  | .trailingContent => "unexpected input after the expression"
  | .nestingTooDeep limit => "expression nests deeper than " ++ limit.repr ++ " levels"

structure Error where
  cause : Cause
  span : Span
deriving DecidableEq

def Error.message (e : Error) : String :=
  e.cause.message ++ " at " ++ e.span.toText

end Source
end ScopeLisp
