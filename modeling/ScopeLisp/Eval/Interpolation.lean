import ScopeLisp.Binary32.Decimal
import ScopeLisp.Eval.Store

/-!
# Interpolation

A template is copied out, except that a percent sign and the character behind
it take one argument.  The only directive is `%d`, which writes a number.  Once
the arguments are used up the rest of the template is copied as it stands, and
so is a percent sign at its very end.
-/

namespace ScopeLisp

def numberChars : Expr → Except EvalError (List Char)
  | .num value => .ok value.chars
  | value => .error (.formatTypeMismatch value.kindName)

/-- Fills arguments into a template. -/
def interpolate (eval : Evaluator) (scope : ScopeId) :
    (template : List Char) → (args : List Expr) → EvalM (List Char)
  | [], _ => return []
  | ['%'], _ => return ['%']
  | '%' :: directive :: rest, [] => do
      let text ← interpolate eval scope rest []
      return '%' :: directive :: text
  | '%' :: directive :: rest, arg :: args =>
      if directive = 'd' then do
        let result ← eval scope arg .nearest
        let number ← EvalM.ofExcept (numberChars result.value)
        let text ← interpolate eval scope rest args
        return number ++ text
      else
        throw (.unknownDirective directive)
  | c :: rest, args => do
      let text ← interpolate eval scope rest args
      return c :: text

@[simp] theorem interpolate_nil (eval : Evaluator) (scope : ScopeId) (args : List Expr) :
    interpolate eval scope [] args = pure [] := by
  unfold interpolate
  rfl

end ScopeLisp
