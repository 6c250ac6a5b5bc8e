import ScopeLisp.Eval.Error
import ScopeLisp.Scope.Forest

/-!
# The store

## What evaluation changes

Evaluation adds scopes and functions and counts the evaluations in flight.  A
failed evaluation leaves what it added, so the store is kept beside an error.

## Evaluators

An evaluator takes a scope, an expression and a lookup mode to a value and the
scope in which evaluation goes on.  The operations of the language are written
against an arbitrary evaluator, which they use for their arguments.
-/

namespace ScopeLisp

structure Store where
  forest : Forest
  /-- How many functions were created, which is the number of the next one. -/
  functions : Nat
  /-- How many evaluations have begun and not ended. -/
  inFlight : Nat
  /-- The most evaluations that were in flight at one time. -/
  peak : Nat
deriving Inhabited

namespace Store

def empty : Store := ⟨.empty, 0, 0, 0⟩

def addRoot (s : Store) : Store :=
  { s with forest := s.forest.addRoot }

def addChild (s : Store) (parent : ScopeId) : Store :=
  { s with forest := s.forest.addChild parent }

def addFunction (s : Store) : Store :=
  { s with functions := s.functions + 1 }

def enter (s : Store) : Store :=
  { s with inFlight := s.inFlight + 1, peak := max s.peak (s.inFlight + 1) }

def leave (s : Store) : Store :=
  { s with inFlight := s.inFlight - 1 }

def lookup (s : Store) (scope : ScopeId) (name : String) (mode : LookupMode) : Option Expr :=
  s.forest.lookup scope name mode

end Store

/-- Computations that change the store and may fail. -/
abbrev EvalM := EStateM EvalError Store

/-- A value, and the scope in which evaluation goes on. -/
structure Evaluated where
  value : Expr
  scope : ScopeId
deriving Inhabited

abbrev Evaluator := ScopeId → Expr → LookupMode → EvalM Evaluated

abbrev NativeBody := Evaluator → ScopeId → List Expr → EvalM Evaluated

namespace EvalM

/-!
# Operations on the store

A name is bound once in a scope, and an evaluation in flight is counted whether
it fails or not.
-/

def openScope (parent : ScopeId) : EvalM ScopeId := fun s =>
  .ok s.forest.fresh (s.addChild parent)

def newIdentity (home : ScopeId) : EvalM Identity := fun s =>
  .ok ⟨s.functions, home⟩ s.addFunction

/-- Binds a name in a scope that does not bind it yet. -/
def bindName (scope : ScopeId) (name : String) (value : Expr) : EvalM Unit := fun s =>
  if s.forest.binds scope name then
    .error (.rebind name) s
  else
    .ok () { s with forest := s.forest.set scope name value }

def lookup (scope : ScopeId) (name : String) (mode : LookupMode) : EvalM (Option Expr) := fun s =>
  .ok (s.lookup scope name mode) s

/-- Counts a computation as one evaluation in flight, whether it fails or not. -/
def counted {α : Type} (act : EvalM α) : EvalM α := fun s =>
  match act s.enter with
  | .ok a s => .ok a s.leave
  | .error e s => .error e s.leave

def ofExcept {α : Type} : Except EvalError α → EvalM α
  | .ok a => pure a
  | .error e => throw e

/-!
# Runs

How a run of a composed computation comes about from runs of its parts.
-/

theorem bind_eq_ok_iff {α β : Type} {act : EvalM α} {next : α → EvalM β}
    {s s' : Store} {b : β} :
    (act >>= next) s = .ok b s' ↔
      ∃ a s₁, act s = .ok a s₁ ∧ next a s₁ = .ok b s' := by
  show EStateM.bind act next s = _ ↔ _
  unfold EStateM.bind
  cases act s with
  | ok a s₁ =>
      simp [and_assoc]
  | error e s₁ =>
      simp

theorem bind_eq_error_iff {α β : Type} {act : EvalM α} {next : α → EvalM β}
    {s s' : Store} {e : EvalError} :
    (act >>= next) s = .error e s' ↔
      act s = .error e s' ∨ ∃ a s₁, act s = .ok a s₁ ∧ next a s₁ = .error e s' := by
  show EStateM.bind act next s = _ ↔ _
  unfold EStateM.bind
  cases act s with
  | ok a s₁ =>
      simp [and_assoc]
  | error e₁ s₁ =>
      simp

theorem bind_of_eq_ok {α β : Type} {act : EvalM α} {s t : Store} {a : α} (h : act s = .ok a t)
    (next : α → EvalM β) : (act >>= next) s = next a t := by
  show EStateM.bind act next s = _
  rw [EStateM.bind, h]

theorem bind_of_eq_error {α β : Type} {act : EvalM α} {s t : Store} {e : EvalError}
    (h : act s = .error e t) (next : α → EvalM β) : (act >>= next) s = .error e t := by
  show EStateM.bind act next s = _
  rw [EStateM.bind, h]

theorem bindName_fresh (s : Store) (parent : ScopeId) (name : String) (value : Expr) :
    bindName s.forest.fresh name value (s.addChild parent) =
      .ok () { s.addChild parent with
        forest := (s.forest.addChild parent).set s.forest.fresh name value } := by
  unfold bindName
  rw [show (s.addChild parent).forest.binds s.forest.fresh name = false from
    s.forest.binds_addChild_fresh parent name]
  rfl

theorem counted_eq_ok_iff {α : Type} {act : EvalM α} {s s' : Store} {a : α} :
    counted act s = .ok a s' ↔ ∃ s₁, act s.enter = .ok a s₁ ∧ s' = s₁.leave := by
  unfold counted
  cases act s.enter with
  | ok a₁ s₁ =>
      constructor
      · intro h
        cases h
        exact ⟨s₁, rfl, rfl⟩
      · rintro ⟨s₂, h, rfl⟩
        cases h
        rfl
  | error e s₁ =>
      constructor
      · intro h
        cases h
      · rintro ⟨s₂, h, _⟩
        cases h

end EvalM
end ScopeLisp
