import ScopeLisp.Expr.Basic
import ScopeLisp.Source.Error
import ScopeLisp.Source.Token

/-!
# Reading expressions

## A stack of open lists and quotes

Tokens are read one at a time against a stack of the lists and quotes that are
still open.  The height of the stack is the nesting level, and it is bounded.

## Three ways to read

A `Reader` gives one expression after another and can go on after an error, a
program is read to its end, and a single expression must be all there is.
-/

namespace ScopeLisp
namespace Source

/-- A list or quote that is still open.  The items of a list are kept latest first. -/
inductive Frame where
  | list (start : Nat) (items : List Expr)
  | quote

/-- What one token does to the expression being read. -/
inductive Step where
  /-- Reading goes on below these open frames. -/
  | push (stack : List Frame)
  /-- The expression is complete. -/
  | done (e : Expr)
  /-- The token cannot stand here and stays unread. -/
  | refused (error : Error)
  /-- The token is malformed in itself and is skipped. -/
  | malformed (error : Error)

/-!
# One token

A complete expression goes where the innermost open frame wants it.  A list or
quote is opened only while the nesting is below its bound.
-/

def place (e : Expr) : List Frame → Step
  | [] => .done e
  | .quote :: below => place (.quoted e) below
  | .list start items :: below => .push (.list start (e :: items) :: below)

def descend (token : Token) (frame : Frame) (stack : List Frame) : Step :=
  if stack.length < maxNesting then
    .push (frame :: stack)
  else
    .refused ⟨.nestingTooDeep maxNesting, .ofRange token.start token.stop⟩

def step (stack : List Frame) (token : Token) : Step :=
  match token.lexeme with
  | .openList => descend token (.list token.start []) stack
  | .quote => descend token .quote stack
  | .closeList =>
      match stack with
      | .list _ items :: below => place (.list items.reverse) below
      | _ => .refused ⟨.unexpectedChar ')', .ofRange token.start token.stop⟩
  | .hash => .refused ⟨.unexpectedChar '#', .ofRange token.start token.stop⟩
  | .atom name => place (.atom name) stack
  | .str text => place (.str text) stack
  | .num value => place (.num value) stack
  | .badEscape offset c => .malformed ⟨.unknownEscape c, .ofRange offset token.stop⟩
  | .badNumber word => .malformed ⟨.invalidNumber word, .ofRange token.start token.stop⟩

def unfinished? (length : Nat) : List Frame → Option Error
  | [] => none
  | .quote :: _ => some ⟨.unexpectedEnd, .ofRange length length⟩
  | .list start _ :: _ => some ⟨.unclosedList, .ofRange start length⟩

/-!
# Readers

After an error a reader goes on where it stopped, with nothing open.
-/

structure Reader where
  /-- The tokens still to read. -/
  pending : List Token
  /-- The offset up to which the source is read. -/
  cursor : Nat
  /-- The length of the source in bytes. -/
  length : Nat

namespace Reader

def ofSource (source : List Char) : Reader :=
  ⟨tokens source, 0, Text.byteLength source⟩

def ended (length : Nat) : Reader :=
  ⟨[], length, length⟩

def readOn (length : Nat) : List Frame → List Token → Except Error (Option Expr) × Reader
  | stack, [] =>
      match unfinished? length stack with
      | none => (.ok none, ended length)
      | some error => (.error error, ended length)
  | stack, token :: rest =>
      match step stack token with
      | .push stack => readOn length stack rest
      | .done e => (.ok (some e), ⟨rest, token.stop, length⟩)
      | .refused error => (.error error, ⟨token :: rest, token.start, length⟩)
      | .malformed error => (.error error, ⟨rest, token.stop, length⟩)

/--
The next expression, or none when nothing but blanks and comments is left.
After an error reading goes on where it stopped, with nothing open.
-/
def next (r : Reader) : Except Error (Option Expr) × Reader :=
  readOn r.length [] r.pending

def answers : (count : Nat) → Reader → List (Except Error (Option Expr))
  | 0, _ => []
  | count + 1, r =>
      let (answer, r) := r.next
      answer :: answers count r

end Reader

/-!
# Programs and single expressions

A program is all expressions of a source, and a single expression must be all
there is.
-/

/-- Reads on below open frames, up to the end of the source.  Expressions are kept latest first. -/
def readAll (length : Nat) :
    List Frame → List Expr → List Token → Except Error (List Expr)
  | stack, read, [] =>
      match unfinished? length stack with
      | none => .ok read.reverse
      | some error => .error error
  | stack, read, token :: rest =>
      match step stack token with
      | .push stack => readAll length stack read rest
      | .done e => readAll length [] (e :: read) rest
      | .refused error => .error error
      | .malformed error => .error error

def parseProgram (source : List Char) : Except Error (List Expr) :=
  readAll (Text.byteLength source) [] [] (tokens source)

def parse (source : List Char) : Except Error Expr :=
  match (Reader.ofSource source).next with
  | (.error error, _) => .error error
  | (.ok none, r) => .error ⟨.unexpectedEnd, .ofRange r.length r.length⟩
  | (.ok (some e), r) =>
      match r.pending with
      | [] => .ok e
      | token :: _ => .error ⟨.trailingContent, .ofRange token.start r.length⟩

end Source
end ScopeLisp
