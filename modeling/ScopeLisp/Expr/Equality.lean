import ScopeLisp.Expr.Basic

/-!
# Equality of expressions

Expressions are equal when they have the same shape and agree leaf by leaf.
Numbers agree as IEEE numbers, so the two zeros are equal and a NaN is equal to
nothing.  Functions agree when they have the same identity, and with it the
same name or the same parameters; their bodies are not looked at.
-/

namespace ScopeLisp
namespace Expr

mutual

def equal : Expr → Expr → Bool
  | .atom a, .atom b => decide (a = b)
  | .str a, .str b => decide (a = b)
  | .num a, .num b => Binary32.equal a b
  | .quoted a, .quoted b => equal a b
  | .list as, .list bs => equalAll as bs
  | .native a name routine, .native b name' routine' =>
      decide (a = b ∧ name = name' ∧ routine = routine')
  | .lambda a params _, .lambda b params' _ => decide (a = b ∧ params = params')
  | .null, .null => true
  | _, _ => false

def equalAll : List Expr → List Expr → Bool
  | [], [] => true
  | a :: as, b :: bs => equal a b && equalAll as bs
  | _, _ => false

end

end Expr
end ScopeLisp
