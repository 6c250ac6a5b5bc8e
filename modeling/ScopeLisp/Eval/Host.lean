import ScopeLisp.Eval.Interpreter

/-!
# Host routines

Native functions that an embedding program can register beside the builtins.
They show what a native function can do: look at its arguments before they are
evaluated, evaluate them, return lists that are evaluated in their turn, move
evaluation to another scope, or fail.
-/

namespace ScopeLisp

inductive HostRoutine where
  /-- Gives 42. -/
  | answer
  /-- Counts its arguments. -/
  | count
  /-- Gives its arguments as a list. -/
  | list
  /-- Gives its first argument as it stands. -/
  | first
  /-- Evaluates its first argument, with atoms expanded, and goes on where that leads. -/
  | eval
  /-- Goes on in a new scope. -/
  | scope
  /-- Always fails. -/
  | fail
deriving DecidableEq

namespace HostRoutine

def all : List HostRoutine :=
  [.answer, .count, .list, .first, .eval, .scope, .fail]

def key : HostRoutine → String
  | .answer => "answer"
  | .count => "count"
  | .list => "list"
  | .first => "first"
  | .eval => "eval"
  | .scope => "scope"
  | .fail => "fail"

def ofKey? (key : String) : Option HostRoutine :=
  all.find? fun routine => routine.key == key

def body : HostRoutine → NativeBody
  | .answer => fun _ scope _ => return ⟨.num (.ofNat 42), scope⟩
  | .count => fun _ scope args => return ⟨.num (.ofNat args.length), scope⟩
  | .list => fun _ scope args => return ⟨.list args, scope⟩
  | .first => fun _ scope args => return ⟨args.headD .null, scope⟩
  | .eval => fun eval scope args =>
      match args with
      | [] => return ⟨.null, scope⟩
      | e :: _ => eval scope e .expanding
  | .scope => fun _ scope _ => do
      let inner ← EvalM.openScope scope
      return ⟨.truth, inner⟩
  | .fail => fun _ _ _ => throw .emptyInvocation

end HostRoutine

def Interpreter.withHost (limit : Nat) : Interpreter where
  limit := limit
  host key :=
    match HostRoutine.ofKey? key with
    | some routine => routine.body
    | none => fun _ scope _ => return ⟨.null, scope⟩

end ScopeLisp
