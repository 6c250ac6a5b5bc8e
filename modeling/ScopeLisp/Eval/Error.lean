/-!
# Evaluation errors

Every way in which an evaluation can fail, with the facts of the case, and the
wording of each.
-/

namespace ScopeLisp

/-!
# The shape of special forms

A special form wants arguments of a certain shape.  A malformation names the
form and what is wrong with it.
-/

inductive SpecialForm where
  | define
  | bindings
  | assertion
deriving DecidableEq

def SpecialForm.name : SpecialForm → String
  | .define => "defn"
  | .bindings => "let"
  | .assertion => "assert"

/-- What is wrong with the shape of a special form. -/
inductive Malformation where
  | defineArity
  | functionName
  | parameterList
  | parameterNames
  | functionBody
  | bindingsArity
  | bindingList
  | bindingPair
  | bindingName
  | missingTest
  | messageLiteral
deriving DecidableEq

namespace Malformation

def form : Malformation → SpecialForm
  | .defineArity => .define
  | .functionName => .define
  | .parameterList => .define
  | .parameterNames => .define
  | .functionBody => .define
  | .bindingsArity => .bindings
  | .bindingList => .bindings
  | .bindingPair => .bindings
  | .bindingName => .bindings
  | .missingTest => .assertion
  | .messageLiteral => .assertion

def reason : Malformation → String
  | .defineArity => "expected a name, a parameter list and a body list"
  | .functionName => "function name must be an atom"
  | .parameterList => "parameters must be a list"
  | .parameterNames => "parameters must be atoms"
  | .functionBody => "body must be a list"
  | .bindingsArity => "expected exactly one binding list"
  | .bindingList => "bindings must be a list"
  | .bindingPair => "each binding must be a (name value) pair"
  | .bindingName => "binding name must be an atom"
  | .missingTest => "expected a test expression"
  | .messageLiteral => "message must be a string literal"

end Malformation

/-!
# Causes and their wording

An error records the expressions of its case by their printed form.
-/

/-- Why an evaluation failed.  Expressions are recorded by their printed form. -/
inductive EvalError where
  | emptyInvocation
  | notAnOperator (found : String)
  | unboundOperator (name : String)
  | notCallable (name : String) (found : String)
  | arityMismatch (name : String) (expected got : Nat)
  | malformed (malformation : Malformation)
  | typeMismatch (operator : String) (expected : String) (got : String)
  | formatTypeMismatch (got : String)
  | unknownDirective (directive : Char)
  | assertionFailed (message : Option String)
  | rebind (name : String)
  /-- More evaluations were nested than the limit allows. -/
  | stackExhausted (limit : Nat)
  /-- A list went on giving lists beyond the rounds allowed. -/
  | unsettled
deriving DecidableEq

def EvalError.message : EvalError → String
  | .emptyInvocation => "cannot invoke an empty list"
  | .notAnOperator found => "head of an invocation must be an atom, found " ++ found
  | .unboundOperator name => "lookup for operator `" ++ name ++ "` failed"
  | .notCallable name found => "`" ++ name ++ "` is not a function (bound to " ++ found ++ ")"
  | .arityMismatch name expected got =>
      let noun := if expected = 1 then " argument, got " else " arguments, got "
      "`" ++ name ++ "` expects " ++ expected.repr ++ noun ++ got.repr
  | .malformed malformation =>
      "malformed " ++ malformation.form.name ++ ": " ++ malformation.reason
  | .typeMismatch operator expected got =>
      "`" ++ operator ++ "` expected " ++ expected ++ ", got " ++ got
  | .formatTypeMismatch got => "format directive `%d` expected a number, got " ++ got
  | .unknownDirective directive =>
      "unknown format directive `%" ++ directive.toString ++ "`"
  | .assertionFailed none => "assertion failed"
  | .assertionFailed (some message) => "assertion failed: " ++ message
  | .rebind name => "`" ++ name ++ "` is already bound in this scope"
  | .stackExhausted limit =>
      "maximum evaluation depth exceeded (limit: " ++ limit.repr ++ ")"
  | .unsettled => "evaluation of a list does not settle"

end ScopeLisp
