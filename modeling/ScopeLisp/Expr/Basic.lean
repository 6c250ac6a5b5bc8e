import ScopeLisp.Binary32.Basic

/-!
# Expressions

## Programs and values

Programs are data: one type holds what is read from a source and what
evaluation gives.  Functions occur as values only.  A function carries the
identity that it got when it was created and its home, the scope in which its
body is evaluated.

## Measures

The size of an expression counts its nodes, and its nesting counts the lists
and quotes on the longest way down.
-/

namespace ScopeLisp

/-!
# Operations and identities

Native functions run a builtin or a routine of the host.  A function is known
by the number it got when it was created, and by its home.
-/

structure ScopeId where
  index : Nat
deriving DecidableEq, Inhabited

inductive Arithmetic where
  | add
  | sub
  | mul
  | div
deriving DecidableEq

inductive Comparison where
  | equal
  | less
  | atMost
  | greater
  | atLeast
deriving DecidableEq

/-- The operations of the builtin library. -/
inductive Builtin where
  /-- Evaluate expressions in turn, each in the scope that the previous one left. -/
  | sequence
  /-- Define a function. -/
  | define
  /-- Bind names in a new scope. -/
  | bindings
  /-- Fail, with a message, when a test gives the null value. -/
  | assertion
  | arithmetic (op : Arithmetic)
  | comparison (op : Comparison)
  /-- Add one. -/
  | increment
  /-- Take one away. -/
  | decrement
  | conjunction
  | disjunction
  | negation
deriving DecidableEq

/-- What a native function runs: a builtin, or a routine that the host supplies under a key. -/
inductive Routine where
  | builtin (operation : Builtin)
  | host (key : String)
deriving DecidableEq

/-- What makes a function itself: a number given out once, and its home scope. -/
structure Identity where
  number : Nat
  home : ScopeId
deriving DecidableEq

/-- Expressions, which are programs and values at once. -/
inductive Expr where
  | atom (name : String)
  | str (text : String)
  | num (value : Binary32)
  | quoted (inner : Expr)
  | list (items : List Expr)
  /-- A function that receives its arguments unevaluated. -/
  | native (identity : Identity) (name : String) (routine : Routine)
  /-- A function defined by the program. -/
  | lambda (identity : Identity) (params : List String) (body : List Expr)
  | null
deriving Inhabited

namespace Expr

/-!
# Truth and kinds

Null is the only value that counts as false, and the atom `T` stands for truth.
-/

def truth : Expr := .atom "T"

def ofBool (b : Bool) : Expr :=
  if b then truth else .null

/-- Everything but null counts as true. -/
def isTruthy : Expr → Bool
  | .null => false
  | _ => true

def isList : Expr → Bool
  | .list _ => true
  | _ => false

def isAtom : Expr → Bool
  | .atom _ => true
  | _ => false

def isNumber : Expr → Bool
  | .num _ => true
  | _ => false

def atomName? : Expr → Option String
  | .atom name => some name
  | _ => none

def items? : Expr → Option (List Expr)
  | .list items => some items
  | _ => none

def kindName : Expr → String
  | .atom _ => "atom"
  | .str _ => "string"
  | .num _ => "number"
  | .quoted _ => "quoted expression"
  | .list _ => "list"
  | .native .. => "function"
  | .lambda .. => "function"
  | .null => "NIL"

/-!
# Sizes and nesting

A function is a single node, whatever code it holds.  Each part of a list is
smaller than the list.
-/

mutual

/-- The number of nodes.  A function is one node. -/
def size : Expr → Nat
  | .quoted inner => size inner + 1
  | .list items => sizeAll items + 1
  | _ => 1

def sizeAll : List Expr → Nat
  | [] => 0
  | e :: rest => size e + sizeAll rest

end

mutual

/-- How many lists and quotes are nested on the longest way down. -/
def nesting : Expr → Nat
  | .quoted inner => nesting inner + 1
  | .list items => nestingAll items + 1
  | _ => 0

def nestingAll : List Expr → Nat
  | [] => 0
  | e :: rest => max (nesting e) (nestingAll rest)

end

theorem size_pos (e : Expr) : 0 < e.size := by
  cases e <;> simp [size]

theorem size_le_sizeAll {e : Expr} {items : List Expr} (h : e ∈ items) :
    e.size ≤ sizeAll items := by
  induction items with
  | nil =>
      cases h
  | cons first rest ih =>
      rw [sizeAll]
      cases h with
      | head =>
          omega
      | tail _ h =>
          have := ih h
          omega

end Expr
end ScopeLisp
