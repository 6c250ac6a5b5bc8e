/-!
# Blank characters

## The Unicode property `White_Space`

A character is blank when it has the Unicode property `White_Space`.  Blanks
separate the words of a source and are trimmed from the lines of a dialogue.
-/

namespace ScopeLisp
namespace Text

/-- The code points with the property `White_Space`, as closed ranges in ascending order. -/
def blankRanges : List (Nat × Nat) :=
  [(0x0009, 0x000D), (0x0020, 0x0020), (0x0085, 0x0085), (0x00A0, 0x00A0),
   (0x1680, 0x1680), (0x2000, 0x200A), (0x2028, 0x2029), (0x202F, 0x202F),
   (0x205F, 0x205F), (0x3000, 0x3000)]

def inRanges (ranges : List (Nat × Nat)) (code : Nat) : Bool :=
  ranges.any fun range => decide (range.1 ≤ code) && decide (code ≤ range.2)

def isBlank (c : Char) : Bool :=
  inRanges blankRanges c.toNat

/-!
# Trimming

Only the ends of a text are trimmed.  The blanks inside it stay.
-/

def trimEnd (cs : List Char) : List Char :=
  (cs.reverse.dropWhile isBlank).reverse

def trim (cs : List Char) : List Char :=
  trimEnd (cs.dropWhile isBlank)

end Text
end ScopeLisp
