import ScopeLisp.Eval.Interpreter

/-!
# The builtin library

## Registration

A native function is bound in the scope that is its home.

## The library scope

A library scope is a root that binds the constants `T` and `NIL` and every
builtin.  Each library scope has functions of its own.
-/

namespace ScopeLisp

def EvalM.register (home : ScopeId) (name : String) (routine : Routine) : EvalM Unit := do
  let identity ← EvalM.newIdentity home
  EvalM.bindName home name (.native identity name routine)

/-- All builtins, in the order in which the library declares them. -/
def Builtin.all : List Builtin :=
  [.sequence, .define, .bindings, .assertion,
   .arithmetic .add, .arithmetic .sub, .arithmetic .mul, .arithmetic .div,
   .comparison .equal, .comparison .less, .comparison .atMost,
   .comparison .greater, .comparison .atLeast,
   .increment, .decrement, .conjunction, .disjunction, .negation]

/-!
# Constants and names

A library scope binds the constants first and then the builtins, in the order
of their declaration.
-/

def libraryConstants : List (String × Expr) :=
  [("T", .truth), ("NIL", .null)]

def libraryNames : List String :=
  libraryConstants.map Prod.fst ++ Builtin.all.map Builtin.name

namespace Store

/-!
# Library scopes

A library scope is made by binding the constants and then the builtins in a new
root.
-/

def addBuiltin (root : ScopeId) (s : Store) (operation : Builtin) : Store :=
  let function : Expr :=
    .native ⟨s.functions, root⟩ operation.name (.builtin operation)
  { s.addFunction with forest := s.forest.set root operation.name function }

def addConstant (root : ScopeId) (s : Store) (binding : String × Expr) : Store :=
  { s with forest := s.forest.set root binding.1 binding.2 }

/-- Adds a library scope. -/
def addLibrary (s : Store) : Store :=
  let root := s.forest.fresh
  Builtin.all.foldl (addBuiltin root)
    (libraryConstants.foldl (addConstant root) s.addRoot)

/--
What holds with a new root, and still holds when a constant or a builtin is bound
in it, holds with a library scope.
-/
theorem addLibrary_induction {p : Store → Prop} (s : Store) (root : p s.addRoot)
    (constant : ∀ t constant, constant ∈ libraryConstants → p t →
      p (addConstant s.forest.fresh t constant))
    (builtin : ∀ t operation, p t → p (addBuiltin s.forest.fresh t operation)) :
    p s.addLibrary := by
  have hconstants : p (libraryConstants.foldl (addConstant s.forest.fresh) s.addRoot) :=
    List.foldlRecOn _ _ root fun t ht binding hmem => constant t binding hmem ht
  exact List.foldlRecOn _ _ hconstants fun t ht operation _ => builtin t operation ht

def first : ScopeId := ⟨0⟩

/-- A store with nothing but a library scope, which is its first. -/
def library : Store :=
  empty.addLibrary

end Store
end ScopeLisp
