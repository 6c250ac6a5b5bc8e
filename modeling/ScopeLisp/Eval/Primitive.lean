import ScopeLisp.Binary32.Arithmetic
import ScopeLisp.Eval.Store

/-!
# Primitives

## Sweeping over arguments

A primitive evaluates its arguments from left to right, all in the scope of the
call, and folds their values with a rule that may stop early or fail.  The rule
itself is pure: it sees values only.  Each primitive is such a rule.
-/

namespace ScopeLisp

/-- What a rule makes of the value of one more argument. -/
inductive Verdict (σ : Type) where
  /-- Go on to the next argument. -/
  | next (state : σ)
  /-- The result is known, and the remaining arguments are not evaluated. -/
  | stop (value : Expr)
  | fail (error : EvalError)

structure Rule (σ : Type) where
  mode : LookupMode
  step : σ → Expr → Verdict σ
  finish : σ → Except EvalError Expr

/-- Evaluates arguments in turn under a rule.  The scope of the call is kept. -/
def Rule.sweep {σ : Type} (rule : Rule σ) (eval : Evaluator) (scope : ScopeId) :
    σ → List Expr → EvalM Evaluated
  | state, [] => do
      let value ← EvalM.ofExcept (rule.finish state)
      return ⟨value, scope⟩
  | state, arg :: rest => do
      let result ← eval scope arg rule.mode
      match rule.step state result.value with
      | .next state => rule.sweep eval scope state rest
      | .stop value => return ⟨value, scope⟩
      | .fail error => throw error

theorem Rule.sweep_nil {σ : Type} (rule : Rule σ) (eval : Evaluator) (scope : ScopeId)
    (state : σ) :
    rule.sweep eval scope state [] =
      (do
        let value ← EvalM.ofExcept (rule.finish state)
        return ⟨value, scope⟩) := rfl

theorem Rule.sweep_cons {σ : Type} (rule : Rule σ) (eval : Evaluator) (scope : ScopeId)
    (state : σ) (arg : Expr) (rest : List Expr) :
    rule.sweep eval scope state (arg :: rest) =
      (do
        let result ← eval scope arg rule.mode
        match rule.step state result.value with
        | .next state => rule.sweep eval scope state rest
        | .stop value => return ⟨value, scope⟩
        | .fail error => throw error) := rfl

/-!
# Arithmetic

Null values are passed over.  The first number is the start, and at least one
number is needed.
-/

def Arithmetic.name : Arithmetic → String
  | .add => "+"
  | .sub => "-"
  | .mul => "*"
  | .div => "/"

def Arithmetic.apply : Arithmetic → Binary32 → Binary32 → Binary32
  | .add => Binary32.add
  | .sub => Binary32.sub
  | .mul => Binary32.mul
  | .div => Binary32.div

def EvalError.wantsNumber (operator : String) (value : Expr) : EvalError :=
  .typeMismatch operator "number" value.kindName

/-- The left fold of an operation over the numbers among the arguments. -/
def Rule.fold (name : String) (op : Binary32 → Binary32 → Binary32) : Rule (Option Binary32) where
  mode := .expanding
  step
    | total, .null => .next total
    | none, .num x => .next (some x)
    | some total, .num x => .next (some (op total x))
    | _, value => .fail (.wantsNumber name value)
  finish
    | some total => .ok (.num total)
    | none => .error (.typeMismatch name "at least one number" "no numeric arguments")

/-!
# Comparison

A chain holds when each number is in the relation to the next one.
-/

def Comparison.name : Comparison → String
  | .equal => "="
  | .less => "<"
  | .atMost => "<="
  | .greater => ">"
  | .atLeast => ">="

def Comparison.holds : Comparison → Binary32 → Binary32 → Bool
  | .equal, x, y => Binary32.equal x y
  | .less, x, y => Binary32.less x y
  | .atMost, x, y => Binary32.atMost x y
  | .greater, x, y => Binary32.less y x
  | .atLeast, x, y => Binary32.atMost y x

/-- A chain of comparisons, which stops at the first one that fails. -/
def Rule.chain (name : String) (holds : Binary32 → Binary32 → Bool) : Rule (Option Binary32) where
  mode := .expanding
  step
    | none, .num x => .next (some x)
    | some previous, .num x => if holds previous x then .next (some x) else .stop .null
    | _, value => .fail (.wantsNumber name value)
  finish _ := .ok .truth

/-!
# Truth values

Null is false and any atom is true.  Nothing else is a truth value.
-/

def truthValue (operator : String) : Expr → Except EvalError Bool
  | .null => .ok false
  | .atom _ => .ok true
  | value => .error (.typeMismatch operator "boolean" value.kindName)

/-- True when there are arguments and all of them are; it stops at the first that is not. -/
def Rule.all (name : String) : Rule Bool where
  mode := .nearest
  step _ value :=
    match truthValue name value with
    | .ok true => .next true
    | .ok false => .stop .null
    | .error error => .fail error
  finish seen := .ok (.ofBool seen)

def Rule.any (name : String) : Rule Unit where
  mode := .nearest
  step _ value :=
    match truthValue name value with
    | .ok true => .stop .truth
    | .ok false => .next ()
    | .error error => .fail error
  finish _ := .ok .null

/-!
# Operators of one argument

An operator of one argument is a rule that wants exactly one value and applies
a function to it.
-/

def Rule.single (apply : Expr → Except EvalError Expr) : Rule Unit where
  mode := .nearest
  step _ value :=
    match apply value with
    | .ok result => .stop result
    | .error error => .fail error
  finish _ := .ok .null

def negate (name : String) (value : Expr) : Except EvalError Expr := do
  let truth ← truthValue name value
  return .ofBool !truth

def shiftBy (name : String) (amount : Binary32) : Expr → Except EvalError Expr
  | .num x => .ok (.num (Binary32.add x amount))
  | value => .error (.wantsNumber name value)

def unary (name : String) (apply : Expr → Except EvalError Expr) : NativeBody :=
  fun eval scope args =>
    match args with
    | [arg] => (Rule.single apply).sweep eval scope () [arg]
    | _ => throw (.arityMismatch name 1 args.length)

end ScopeLisp
