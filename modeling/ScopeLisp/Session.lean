import ScopeLisp.Eval.Library
import ScopeLisp.Source.Reader

/-!
# Sessions

A session evaluates one program after another.  Each expression is evaluated
in the scope that the previous one left, and a failure leaves the session in
the scope before the expression that failed.
-/

namespace ScopeLisp

/-!
# Failures

A program fails because it cannot be read or because an expression cannot be
evaluated.
-/

inductive Failure where
  | reading (error : Source.Error)
  | evaluation (error : EvalError)
deriving DecidableEq

def Failure.message : Failure → String
  | .reading error => error.message
  | .evaluation error => error.message

/--
The headline that tells the user of a failure.  After a reading failure this is
only the beginning of a report: the excerpt of the source that is drawn under
it is no part of this text.
-/
def Failure.report : Failure → String
  | .reading error => "Error: parse error: " ++ error.cause.message ++ "\n"
  | .evaluation error => "error: " ++ error.message ++ "\n"

/-!
# The state of a session

A session keeps its store and the scope in which the next expression is
evaluated.
-/

structure Session where
  interpreter : Interpreter
  store : Store
  /-- The scope in which the next expression is evaluated. -/
  scope : ScopeId

namespace Session

def start (interpreter : Interpreter) : Session :=
  ⟨interpreter, .library, Store.first⟩

def depth (s : Session) : Nat :=
  s.store.forest.depth s.scope

def eval (s : Session) (e : Expr) : Except EvalError Expr × Session :=
  match s.interpreter.eval s.scope e .nearest s.store with
  | .ok result store => (.ok result.value, { s with store := store, scope := result.scope })
  | .error error store => (.error error, { s with store := store })

/-- Evaluates expressions in turn up to the first failure, and gives the last value. -/
def evalAll (s : Session) (last : Expr) : List Expr → Except EvalError Expr × Session
  | [] => (.ok last, s)
  | e :: rest =>
      match s.eval e with
      | (.ok value, s) => s.evalAll value rest
      | (.error error, s) => (.error error, s)

theorem evalAll_append (s : Session) (last : Expr) (es rest : List Expr) :
    s.evalAll last (es ++ rest) =
      match s.evalAll last es with
      | (.ok value, s) => s.evalAll value rest
      | (.error error, s) => (.error error, s) := by
  induction es generalizing s last with
  | nil =>
      rfl
  | cons e es ih =>
      simp only [List.cons_append, evalAll]
      split
      · rw [ih]
      · rfl

/-- Evaluates a program, which must be readable to its end.  An empty one gives null. -/
def evalSource (s : Session) (source : List Char) : Except Failure Expr × Session :=
  match Source.parseProgram source with
  | .error error => (.error (.reading error), s)
  | .ok program =>
      match s.evalAll .null program with
      | (.ok value, s) => (.ok value, s)
      | (.error error, s) => (.error (.evaluation error), s)

end Session
end ScopeLisp
