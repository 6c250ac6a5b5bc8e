import ScopeLisp.Expr.Printer
import ScopeLisp.Text.Escape

/-!
# Constructor form

The constructor form of an expression spells out its structure, node by node,
for diagnosis.  Texts are escaped, and a number always shows that it is one: by
a fraction, or by an exponent when it is very large or very small.
-/

namespace ScopeLisp

namespace Decimal

/-!
# Numbers

A number is shown with an exponent when it is at least `10 ^ 16`, or smaller
than `10 ^ (-4)` without being zero.
-/

def scientific (d : Decimal) : List Char :=
  let digits := Nat.toDigits 10 d.coefficient
  let exponent : Int := d.exponent + (digits.length - 1 : Nat)
  let fraction := digits.drop 1
  digits.take 1 ++ (if fraction.isEmpty then [] else '.' :: fraction) ++
    'e' :: (toString exponent).toList

end Decimal

namespace Binary32

def exponentFrom : Binary32 := ofDecimal ⟨1, 16⟩

def exponentBelow : Binary32 := ofDecimal ⟨1, -4⟩

/-- The size of a finite number, with a fraction or an exponent in any case. -/
def diagnosticSize (x : Binary32) : List Char :=
  match shortestDecimal x with
  | none => []
  | some d =>
      if x.magnitude = 0 then ['0', '.', '0']
      else if atMost exponentFrom x.abs || less x.abs exponentBelow then d.scientific
      else if d.exponent < 0 then d.positional
      else d.positional ++ ['.', '0']

def diagnosticChars (x : Binary32) : List Char :=
  if x.isFinite then
    if x.isNegative then '-' :: x.diagnosticSize else x.diagnosticSize
  else
    x.chars

end Binary32

namespace Expr

/-!
# Nodes

A node is its constructor applied to one argument.  The items of a list stand
in square brackets, with a comma and a space between them.
-/

def applied (constructor : String) (argument : List Char) : List Char :=
  constructor.toList ++ '(' :: argument ++ [')']

def commaSeparated : List (List Char) → List Char
  | [] => []
  | [text] => text
  | text :: rest => text ++ ',' :: ' ' :: commaSeparated rest

def functionDump (e : Expr) : List Char :=
  applied "FnValue" e.chars

mutual

def dumpChars : Expr → List Char
  | .atom name => applied "Atom" (Text.escaped name.toList)
  | .str text => applied "Str" (Text.escaped text.toList)
  | .num value => applied "Num" value.diagnosticChars
  | .quoted inner => applied "Quoted" (dumpChars inner)
  | .list items => applied "List" ('[' :: commaSeparated (dumpCharsAll items) ++ [']'])
  | .native identity name routine => applied "Fn" (functionDump (.native identity name routine))
  | .lambda identity params body => applied "Fn" (functionDump (.lambda identity params body))
  | .null => "Null".toList

def dumpCharsAll : List Expr → List (List Char)
  | [] => []
  | e :: rest => dumpChars e :: dumpCharsAll rest

end

def dump (e : Expr) : String :=
  String.ofList e.dumpChars

end Expr
end ScopeLisp
