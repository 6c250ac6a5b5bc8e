import ScopeLisp.Binary32.Decimal
import ScopeLisp.Expr.Basic

/-!
# Printed form

The printed form of an expression is its source text, as far as it has one: a
string escapes nothing but the double quote, and items are one space apart.
Functions and the null value are shown by a name.
-/

namespace ScopeLisp
namespace Expr

def escapeQuote (c : Char) : List Char :=
  if c = '"' then ['\\', '"'] else [c]

def spaced : List (List Char) → List Char
  | [] => []
  | [word] => word
  | word :: rest => word ++ ' ' :: spaced rest

mutual

def chars : Expr → List Char
  | .atom name => name.toList
  | .str text => '"' :: text.toList.flatMap escapeQuote ++ ['"']
  | .num value => value.chars
  | .quoted inner => '\'' :: chars inner
  | .list items => '(' :: spaced (charsAll items) ++ [')']
  | .native _ name _ => "#<native ".toList ++ name.toList ++ ['>']
  | .lambda _ params _ => "#<fn (".toList ++ spaced (params.map String.toList) ++ [')', '>']
  | .null => "NIL".toList

def charsAll : List Expr → List (List Char)
  | [] => []
  | e :: rest => chars e :: charsAll rest

end

def toText (e : Expr) : String :=
  String.ofList e.chars

theorem chars_quoted (inner : Expr) :
    (Expr.quoted inner).chars = '\'' :: inner.chars := rfl

theorem chars_list (items : List Expr) :
    (Expr.list items).chars = '(' :: spaced (charsAll items) ++ [')'] := rfl

theorem charsAll_cons (e : Expr) (rest : List Expr) :
    charsAll (e :: rest) = e.chars :: charsAll rest := rfl

end Expr
end ScopeLisp
