import ScopeLisp.Eval.Interpolation

/-!
# Special forms

The forms that decide for themselves which of their arguments are evaluated,
and where.  A form that binds names does so in a new scope under the scope of
the call, and evaluation goes on in that new scope.
-/

namespace ScopeLisp

/-!
# Sequences

Each expression of a sequence is evaluated in the scope that the previous one
left.
-/

def evalSequence (eval : Evaluator) : Evaluated → List Expr → EvalM Evaluated
  | last, [] => return last
  | last, e :: rest => do
      let next ← eval last.scope e .nearest
      evalSequence eval next rest

@[simp] theorem evalSequence_nil (eval : Evaluator) (last : Evaluated) :
    evalSequence eval last [] = pure last := rfl

theorem evalSequence_append (eval : Evaluator) (last : Evaluated) (es rest : List Expr) :
    evalSequence eval last (es ++ rest) =
      evalSequence eval last es >>= fun next => evalSequence eval next rest := by
  induction es generalizing last with
  | nil =>
      simp
  | cons e es ih =>
      simp [evalSequence, ih]

def sequenceForm : NativeBody := fun eval scope args =>
  evalSequence eval ⟨.null, scope⟩ args

/-!
# Bindings

No expression of a binding form sees the names of its own form.
-/

/--
Binds names in a scope, each to the value of its expression in another scope.
The list gives the names and expressions, or the failure in place of a pair.
-/
def bindEach (eval : Evaluator) (scope inner : ScopeId) :
    List (Except EvalError (String × Expr)) → EvalM Unit
  | [] => return ()
  | pair :: rest => do
      let (name, e) ← EvalM.ofExcept pair
      let result ← eval scope e .nearest
      EvalM.bindName inner name result.value
      bindEach eval scope inner rest

def bindingPair : Expr → Except EvalError (String × Expr)
  | .list [.atom name, e] => .ok (name, e)
  | .list [_, _] => .error (.malformed .bindingName)
  | _ => .error (.malformed .bindingPair)

/-- Binds names in a new scope.  No expression sees the names of its own form. -/
def bindingsForm : NativeBody := fun eval scope args =>
  match args with
  | [.list pairs] => do
      let inner ← EvalM.openScope scope
      bindEach eval scope inner (pairs.map bindingPair)
      return ⟨.null, inner⟩
  | [_] => throw (.malformed .bindingList)
  | _ => throw (.malformed .bindingsArity)

/-!
# Definitions

A function is at home in the scope of the definition, and its name is bound in
a new scope under it.
-/

def parameterNames : List Expr → Except EvalError (List String)
  | [] => .ok []
  | .atom name :: rest => (parameterNames rest).map (name :: ·)
  | _ :: _ => .error (.malformed .parameterNames)

def definition : List Expr → Except EvalError (String × List String × List Expr)
  | [.atom name, .list params, body] =>
      match parameterNames params, body with
      | .error error, _ => .error error
      | .ok params, .list body => .ok (name, params, body)
      | .ok _, _ => .error (.malformed .functionBody)
  | [.atom _, _, _] => .error (.malformed .parameterList)
  | [_, _, _] => .error (.malformed .functionName)
  | _ => .error (.malformed .defineArity)

/-- Creates a function at home in the scope of the call, and binds its name in a new scope. -/
def defineForm : NativeBody := fun _ scope args => do
  let (name, params, body) ← EvalM.ofExcept (definition args)
  let identity ← EvalM.newIdentity scope
  let inner ← EvalM.openScope scope
  EvalM.bindName inner name (.lambda identity params body)
  return ⟨.lambda identity params body, inner⟩

/-!
# Assertions

An assertion fails, with a message or without one, when its test gives null.
-/

def assertionForm : NativeBody := fun eval scope args =>
  match args with
  | [] => throw (.malformed .missingTest)
  | test :: rest => do
      let tested ← eval scope test .nearest
      if tested.value.isTruthy then
        return ⟨.truth, scope⟩
      else
        match rest with
        | [] => throw (.assertionFailed none)
        | wanted :: rest => do
            let wanted ← eval scope wanted .nearest
            if wanted.value.isTruthy then
              match rest with
              | .str template :: args => do
                  let text ← interpolate eval scope template.toList args
                  throw (.assertionFailed (some (String.ofList text)))
              | _ => throw (.malformed .messageLiteral)
            else
              throw (.assertionFailed none)

end ScopeLisp
