import ScopeLisp.Binary32.Decimal
import ScopeLisp.Text.Blank
import ScopeLisp.Text.Bytes

/-!
# Tokens

## From characters to tokens

A source is cut into tokens from left to right in a single pass: blanks and
comments separate, brackets and quotes stand alone, a string runs to the next
double quote, and every other maximal run of characters is a word.  The pass
never stops.  A malformed string or numeral becomes a token of its own, which
is an error only where a reader meets it, and the pass goes on behind it.

Offsets count the bytes of the UTF-8 form of the source.
-/

namespace ScopeLisp
namespace Source

/-- What a token says. -/
inductive Lexeme where
  | openList
  | closeList
  | quote
  /-- A `#` where a token starts, which belongs to no expression. -/
  | hash
  | atom (name : String)
  | str (text : String)
  | num (value : Binary32)
  /-- A string up to a backslash, at the given offset, before a character that cannot be escaped. -/
  | badEscape (offset : Nat) (c : Char)
  /-- A word of digits and dots that is no numeral. -/
  | badNumber (word : String)
deriving DecidableEq

structure Token where
  lexeme : Lexeme
  start : Nat
  stop : Nat
deriving DecidableEq

/-!
# Words

A word of nothing but digits and dots is meant as a number.
-/

def isDelimiter (c : Char) : Bool :=
  Text.isBlank c || c = '(' || c = ')' || c = '\'' || c = '"' || c = '#' || c = ';'

def isNumeric (c : Char) : Bool :=
  c.isDigit || c = '.'

/-- A word is a number when it is made of digits and dots, and an atom otherwise. -/
def Lexeme.ofWord (word : List Char) : Lexeme :=
  if word.all isNumeric then
    match Binary32.ofNumeral? word with
    | some value => .num value
    | none => .badNumber (String.ofList word)
  else
    .atom (String.ofList word)

/-- What the pass is in the middle of.  Characters read so far are kept latest first. -/
inductive ScanMode where
  | between
  | comment
  | word (start : Nat) (read : List Char)
  | text (start : Nat) (read : List Char)
  /-- Behind a backslash in a string. -/
  | escape (start : Nat) (read : List Char)
deriving DecidableEq

/-- The state of the pass: the offset reached, the open token, and the closed ones, latest first. -/
structure Scan where
  offset : Nat
  mode : ScanMode
  tokens : List Token
deriving DecidableEq

namespace Scan

/-!
# The pass

A character is read by the open token, or opens one.  The tokens that are
closed are kept latest first, and the end of the source closes the last one.
-/

def initial : Scan := ⟨0, .between, []⟩

def closing (s : Scan) : List Token :=
  match s.mode with
  | .between => []
  | .comment => []
  | .word start read => [⟨.ofWord read.reverse, start, s.offset⟩]
  | .text start read => [⟨.str (String.ofList read.reverse), start, s.offset⟩]
  | .escape start read => [⟨.str (String.ofList read.reverse), start, s.offset⟩]

def alone (s : Scan) (c : Char) (lexeme : Lexeme) : Scan :=
  let next := s.offset + c.utf8Size
  ⟨next, .between, ⟨lexeme, s.offset, next⟩ :: s.tokens⟩

def enter (s : Scan) (c : Char) : Scan :=
  let next := s.offset + c.utf8Size
  if Text.isBlank c then ⟨next, .between, s.tokens⟩
  else if c = ';' then ⟨next, .comment, s.tokens⟩
  else if c = '(' then s.alone c .openList
  else if c = ')' then s.alone c .closeList
  else if c = '\'' then s.alone c .quote
  else if c = '#' then s.alone c .hash
  else if c = '"' then ⟨next, .text s.offset [], s.tokens⟩
  else ⟨next, .word s.offset [c], s.tokens⟩

theorem offset_enter (s : Scan) (c : Char) :
    (s.enter c).offset = s.offset + c.utf8Size := by
  unfold enter
  repeat' split
  all_goals rfl

def step (s : Scan) (c : Char) : Scan :=
  let next := s.offset + c.utf8Size
  match s.mode with
  | .between => s.enter c
  | .comment =>
      if c = '\n' then ⟨next, .between, s.tokens⟩
      else ⟨next, .comment, s.tokens⟩
  | .word start read =>
      if isDelimiter c then
        enter ⟨s.offset, .between, s.closing ++ s.tokens⟩ c
      else
        ⟨next, .word start (c :: read), s.tokens⟩
  | .text start read =>
      if c = '"' then
        ⟨next, .between, ⟨.str (String.ofList read.reverse), start, next⟩ :: s.tokens⟩
      else if c = '\\' then
        ⟨next, .escape start read, s.tokens⟩
      else
        ⟨next, .text start (c :: read), s.tokens⟩
  | .escape start read =>
      if c = '"' then
        ⟨next, .text start ('"' :: read), s.tokens⟩
      else
        ⟨next, .between, ⟨.badEscape (s.offset - 1) c, start, next⟩ :: s.tokens⟩

def run (s : Scan) (text : List Char) : Scan :=
  text.foldl step s

def finish (s : Scan) : List Token :=
  (s.closing ++ s.tokens).reverse

/-!
# Offsets

The pass over a text is the pass over its parts, and each character moves it on
by its bytes.
-/

theorem run_append (s : Scan) (first second : List Char) :
    s.run (first ++ second) = (s.run first).run second := by
  simp [run, List.foldl_append]

end Scan

theorem Scan.offset_step (s : Scan) (c : Char) :
    (s.step c).offset = s.offset + c.utf8Size := by
  unfold step
  cases s.mode with
  | between =>
      exact offset_enter s c
  | comment =>
      simp only
      split <;> rfl
  | word start read =>
      simp only
      split
      · exact offset_enter _ c
      · rfl
  | text start read =>
      simp only
      split
      · rfl
      · split <;> rfl
  | escape start read =>
      simp only
      split <;> rfl

theorem Scan.offset_run (s : Scan) (text : List Char) :
    (s.run text).offset = s.offset + Text.byteLength text := by
  induction text generalizing s with
  | nil =>
      rfl
  | cons c text ih =>
      show ((s.step c).run text).offset = _
      rw [ih, offset_step, Text.byteLength_cons]
      omega

def tokens (source : List Char) : List Token :=
  (Scan.initial.run source).finish

end Source
end ScopeLisp
