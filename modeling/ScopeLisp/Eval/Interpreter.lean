import ScopeLisp.Eval.Forms
import ScopeLisp.Eval.Primitive
import ScopeLisp.Expr.Printer

/-!
# The interpreter

## Invocation

A list is an invocation: its head names a function, which is looked up in the
scope of the call.  A native function gets its arguments unevaluated.  A
function of the program binds its parameters under its home scope and evaluates
its body there.

## Settling

When the value of a list or of an atom is a list again, it is evaluated in its
turn, until a value is no list.  Only a quoted list is left as it is.

## Depth

Each evaluation that an operation asks for is one level deeper than the
operation itself, and the number of levels is limited.  Evaluation is defined
by recursion on the levels that are left.
-/

namespace ScopeLisp

/-!
# The builtins

Each builtin has a name in the library and a body, which is a form or a rule
for the values of its arguments.
-/

def Builtin.name : Builtin → String
  | .sequence => "do"
  | .define => "defn"
  | .bindings => "let"
  | .assertion => "assert"
  | .arithmetic op => op.name
  | .comparison op => op.name
  | .increment => "1+"
  | .decrement => "1-"
  | .conjunction => "and"
  | .disjunction => "or"
  | .negation => "not"

def Builtin.body : Builtin → NativeBody
  | .sequence => sequenceForm
  | .define => defineForm
  | .bindings => bindingsForm
  | .assertion => assertionForm
  | .arithmetic op => fun eval scope args =>
      (Rule.fold op.name op.apply).sweep eval scope none args
  | .comparison op => fun eval scope args =>
      (Rule.chain op.name op.holds).sweep eval scope none args
  | .increment => unary "1+" (shiftBy "1+" .one)
  | .decrement => unary "1-" (shiftBy "1-" (.neg .one))
  | .conjunction => fun eval scope args => (Rule.all "and").sweep eval scope false args
  | .disjunction => fun eval scope args => (Rule.any "or").sweep eval scope () args
  | .negation => unary "not" (negate "not")

def defaultLimit : Nat := 10000

/-- The fixed parts of an interpreter. -/
structure Interpreter where
  /-- How many evaluations may be nested. -/
  limit : Nat := defaultLimit
  /-- The routines of the host, by key. -/
  host : String → NativeBody := fun _ _ scope _ => return ⟨.null, scope⟩
  /--
  How many lists may be evaluated in turn, given the first one.  With the
  builtins each of them is a part of the one before, so the size of the first
  one is enough.
  -/
  rounds : Expr → Nat := Expr.size

namespace Interpreter

/-!
# Invoking and settling

A round of settling is one invocation.  The levels are counted by `evalAt`, and
the rounds within one level by `settle`.
-/

def routine (i : Interpreter) : Routine → NativeBody
  | .builtin operation => operation.body
  | .host key => i.host key

/--
Calls a function of the program.  Its parameters are bound to the values of the
arguments in the scope of the call; arguments beyond the parameters are left
alone.  Evaluation goes on in the scope of the call.
-/
def call (eval : Evaluator) (scope : ScopeId) (name : String) (home : ScopeId)
    (params : List String) (body : List Expr) (args : List Expr) : EvalM Evaluated :=
  if args.length < params.length then
    throw (.arityMismatch name params.length args.length)
  else do
    let inner ← EvalM.openScope home
    bindEach eval scope inner ((params.zip args).map .ok)
    let result ← eval inner (.list body) .nearest
    return ⟨result.value, scope⟩

def invoke (i : Interpreter) (eval : Evaluator) (scope : ScopeId) :
    List Expr → EvalM Evaluated
  | [] => throw .emptyInvocation
  | .atom name :: args => do
      match ← EvalM.lookup scope name .nearest with
      | some (.native _ _ routine) => i.routine routine eval scope args
      | some (.lambda identity params body) =>
          call eval scope name identity.home params body args
      | some value => throw (.notCallable name value.toText)
      | none => throw (.unboundOperator name)
  | head :: _ => throw (.notAnOperator head.toText)

/-- Evaluates a value as long as it is a list, for a number of rounds at most. -/
def settle (i : Interpreter) (eval : Evaluator) : (rounds : Nat) → Evaluated → EvalM Evaluated
  | 0, ⟨.list _, _⟩ => throw .unsettled
  | rounds + 1, ⟨.list items, scope⟩ => do
      let next ← i.invoke eval scope items
      i.settle eval rounds next
  | _, result => return result

def evalWith (i : Interpreter) (eval : Evaluator) (scope : ScopeId) (e : Expr)
    (mode : LookupMode) : EvalM Evaluated :=
  match e with
  | .quoted inner => return ⟨inner, scope⟩
  | .atom name => do
      let found ← EvalM.lookup scope name mode
      let value := found.getD .null
      i.settle eval (i.rounds value) ⟨value, scope⟩
  | e => i.settle eval (i.rounds e) ⟨e, scope⟩

/-- Evaluates an expression with a number of levels left. -/
def evalAt (i : Interpreter) : (levels : Nat) → Evaluator
  | 0 => fun _ _ _ => throw (.stackExhausted i.limit)
  | levels + 1 => fun scope e mode =>
      EvalM.counted (i.evalWith (i.evalAt levels) scope e mode)

/-!
# Equations
-/

theorem settle_succ_list (i : Interpreter) (eval : Evaluator) (rounds : Nat)
    (items : List Expr) (scope : ScopeId) :
    i.settle eval (rounds + 1) ⟨.list items, scope⟩ =
      i.invoke eval scope items >>= i.settle eval rounds := rfl

theorem settle_of_isList_eq_false (i : Interpreter) (eval : Evaluator) (rounds : Nat)
    {result : Evaluated} (h : result.value.isList = false) :
    i.settle eval rounds result = pure result := by
  cases result with
  | mk value scope =>
      cases value with
      | list items =>
          cases h
      | _ =>
          cases rounds <;> rfl

@[simp] theorem evalAt_zero (i : Interpreter) (scope : ScopeId) (e : Expr) (mode : LookupMode) :
    i.evalAt 0 scope e mode = throw (.stackExhausted i.limit) := rfl

@[simp] theorem evalAt_succ (i : Interpreter) (levels : Nat) (scope : ScopeId) (e : Expr)
    (mode : LookupMode) :
    i.evalAt (levels + 1) scope e mode =
      EvalM.counted (i.evalWith (i.evalAt levels) scope e mode) := rfl

def eval (i : Interpreter) : Evaluator :=
  i.evalAt i.limit

end Interpreter
end ScopeLisp
