/-!
# Lines

A text is a row of lines, each ended by a newline or by a carriage return and a
newline; the last one may lack its end.  The rule is the same for bytes and for
characters, because no byte of a longer character looks like a newline.
-/

namespace ScopeLisp
namespace Text

def dropLastMark {α : Type} [DecidableEq α] (mark : α) (line : List α) : List α :=
  if line.getLast? = some mark then line.dropLast else line

/-- Cuts a text into lines.  The current line is kept latest first. -/
def linesFrom {α : Type} [DecidableEq α] (newline mark : α) :
    (current : List α) → List α → List (List α)
  | [], [] => []
  | current, [] => [current.reverse]
  | current, c :: rest =>
      if c = newline then
        dropLastMark mark current.reverse :: linesFrom newline mark [] rest
      else
        linesFrom newline mark (c :: current) rest

def lines (text : List Char) : List (List Char) :=
  linesFrom '\n' '\r' [] text

/-!
# Lines of bytes

A text of bytes is cut into lines before it is decoded.  A line that is not
UTF-8 is given as none and spoils no other line.
-/

def decode? (bytes : List UInt8) : Option (List Char) :=
  (String.fromUTF8? ⟨bytes.toArray⟩).map String.toList

def decodedLines (bytes : List UInt8) : List (Option (List Char)) :=
  (linesFrom 0x0A 0x0D [] bytes).map decode?

end Text
end ScopeLisp
