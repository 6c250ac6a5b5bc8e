import ScopeLisp.Text.Mark
import ScopeLisp.Text.Shapeless

/-!
# Escaped text

Text between double quotes with every character visible.  The double quote, the
backslash and the common control characters have short escapes.  A mark, which
would be drawn onto the character before it, and a character without a shape are
written by their numbers.
-/

namespace ScopeLisp
namespace Text

def escapeChar (c : Char) : List Char :=
  if c = '"' then ['\\', '"']
  else if c = '\\' then ['\\', '\\']
  else if c = '\n' then ['\\', 'n']
  else if c = '\r' then ['\\', 'r']
  else if c = '\t' then ['\\', 't']
  else if c = '\x00' then ['\\', '0']
  else if isMark c || isShapeless c then
    ['\\', 'u', '\x7b'] ++ Nat.toDigits 16 c.toNat ++ ['\x7d']
  else [c]

/-- A text between double quotes, with every character visible. -/
def escaped (text : List Char) : List Char :=
  '"' :: text.flatMap escapeChar ++ ['"']

end Text
end ScopeLisp
