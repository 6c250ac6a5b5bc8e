import ScopeLisp.Expr.Basic

/-!
# Scopes

## A forest that only grows

Scopes are numbered in the order of their creation.  A scope is a root or lies
under an older scope, so every chain of parents goes down in number and ends.
Scopes are never removed, and a name that a scope binds is never bound again
there.

## Lookup

A name is searched from a scope outwards.  When atoms are to be expanded, a
binding to an atom is passed over and the search goes on.
-/

namespace ScopeLisp

/-- What lookup makes of a name that is bound to an atom. -/
inductive LookupMode where
  /-- The nearest binding counts. -/
  | nearest
  /-- A binding to an atom is passed over. -/
  | expanding
deriving DecidableEq

def LookupMode.accepts : LookupMode → Expr → Bool
  | .nearest, _ => true
  | .expanding, value => !value.isAtom

/-- One scope: the scope around it, if any, and its own bindings, latest first. -/
structure Scope where
  parent : Option ScopeId
  bindings : List (String × Expr)
deriving Inhabited

namespace Scope

@[inline] def local? (s : Scope) (name : String) : Option Expr :=
  s.bindings.lookup name

@[inline] def visible? (s : Scope) (name : String) (mode : LookupMode) : Option Expr :=
  (s.local? name).filter mode.accepts

def insert (s : Scope) (name : String) (value : Expr) : Scope :=
  { s with bindings := (name, value) :: s.bindings }

end Scope

/-- All scopes, by number.  A parent is older than its child. -/
structure Forest where
  scopes : Array Scope
  parent_lt : ∀ (i : Nat) (h : i < scopes.size) (p : ScopeId),
    (scopes[i]).parent = some p → p.index < i

namespace Forest

def empty : Forest where
  scopes := #[]
  parent_lt := by
    intro i h
    simp at h

instance : Inhabited Forest := ⟨empty⟩

def size (f : Forest) : Nat :=
  f.scopes.size

/-!
# Adding scopes and bindings

A new scope is empty and lies under an older one, or is a root.  Binding a name
in one scope leaves every other scope as it is.
-/

def fresh (f : Forest) : ScopeId :=
  ⟨f.size⟩

@[inline] def get? (f : Forest) (id : ScopeId) : Option Scope :=
  f.scopes[id.index]?

def parent? (f : Forest) (id : ScopeId) : Option ScopeId :=
  (f.get? id).bind Scope.parent

def push (f : Forest) (parent : Option ScopeId)
    (h : ∀ p, parent = some p → p.index < f.size) : Forest where
  scopes := f.scopes.push ⟨parent, []⟩
  parent_lt := by
    intro i hi p hp
    rw [Array.getElem_push] at hp
    split at hp
    · exact f.parent_lt i _ p hp
    · have hlast : i = f.scopes.size := by
        simp at hi
        omega
      subst hlast
      exact h p hp

def addRoot (f : Forest) : Forest :=
  f.push none (by simp)

def addChild (f : Forest) (parent : ScopeId) : Forest :=
  if h : parent.index < f.size then
    f.push (some parent) (by intro p hp; cases hp; exact h)
  else
    f.addRoot

def set (f : Forest) (id : ScopeId) (name : String) (value : Expr) : Forest where
  scopes := f.scopes.modify id.index (Scope.insert · name value)
  parent_lt := by
    intro i hi p hp
    have hi' : i < f.scopes.size := by
      simpa using hi
    apply f.parent_lt i hi' p
    rw [Array.getElem_modify] at hp
    split at hp
    · exact hp
    · exact hp

def local? (f : Forest) (id : ScopeId) (name : String) : Option Expr :=
  (f.get? id).bind (Scope.local? · name)

def binds (f : Forest) (id : ScopeId) (name : String) : Bool :=
  (f.local? id name).isSome

/-!
# Searching outwards

A chain of parents goes down in number, so the number of a scope bounds the
length of its chain.
-/

/-- The first answer of a question put to a scope and then outwards to the scopes around it. -/
@[specialize] def searchFor {α : Type} (f : Forest) (ask : Scope → Option α) :
    (fuel : Nat) → ScopeId → Option α
  | 0, _ => none
  | fuel + 1, id =>
      match f.get? id with
      | none => none
      | some scope =>
          match ask scope with
          | some answer => some answer
          | none =>
              match scope.parent with
              | none => none
              | some parent => searchFor f ask fuel parent

/--
The value of a name, seen from a scope.  A chain of parents goes down in
number, so its length is at most the number of the scope and one.
-/
def lookup (f : Forest) (id : ScopeId) (name : String) (mode : LookupMode) : Option Expr :=
  f.searchFor (Scope.visible? · name mode) (id.index + 1) id

def chainFor (f : Forest) : (fuel : Nat) → ScopeId → List ScopeId
  | 0, _ => []
  | fuel + 1, id =>
      match f.get? id with
      | none => []
      | some scope =>
          match scope.parent with
          | none => [id]
          | some parent => id :: chainFor f fuel parent

/-- The scope and all scopes around it, from the inside out. -/
def chain (f : Forest) (id : ScopeId) : List ScopeId :=
  f.chainFor (id.index + 1) id

def depth (f : Forest) (id : ScopeId) : Nat :=
  (f.chain id).length

def summary (f : Forest) (id : ScopeId) : String :=
  let count := ((f.get? id).map fun scope => scope.bindings.length).getD 0
  "Environment \x7b depth: " ++ (f.depth id).repr ++ ", bindings: " ++ count.repr ++ " \x7d"

/-!
# The view through `get?`

What each operation does to the scopes that a forest holds.
-/

@[simp] theorem size_push (f : Forest) (parent : Option ScopeId)
    (h : ∀ p, parent = some p → p.index < f.size) :
    (f.push parent h).size = f.size + 1 := by
  simp [size, push]

@[simp] theorem size_addRoot (f : Forest) :
    f.addRoot.size = f.size + 1 := by
  simp [addRoot]

@[simp] theorem size_addChild (f : Forest) (parent : ScopeId) :
    (f.addChild parent).size = f.size + 1 := by
  unfold addChild
  split <;> simp

@[simp] theorem size_set (f : Forest) (id : ScopeId) (name : String) (value : Expr) :
    (f.set id name value).size = f.size := by
  simp [size, set]

theorem get?_eq_none_iff (f : Forest) (id : ScopeId) :
    f.get? id = none ↔ f.size ≤ id.index := by
  simp [get?, size]

theorem index_lt_of_get? {f : Forest} {id : ScopeId} {scope : Scope}
    (h : f.get? id = some scope) : id.index < f.size := by
  apply Nat.lt_of_not_le
  rw [← f.get?_eq_none_iff id, h]
  simp

theorem get?_push (f : Forest) (parent : Option ScopeId)
    (h : ∀ p, parent = some p → p.index < f.size) (id : ScopeId) :
    (f.push parent h).get? id =
      if id.index = f.size then some ⟨parent, []⟩ else f.get? id := by
  show (f.scopes.push ⟨parent, []⟩)[id.index]? = _
  rw [Array.getElem?_push]
  rfl

theorem get?_addRoot (f : Forest) (id : ScopeId) :
    f.addRoot.get? id = if id.index = f.size then some ⟨none, []⟩ else f.get? id := by
  simp [addRoot, get?_push]

theorem get?_addChild (f : Forest) {parent : ScopeId} (h : parent.index < f.size)
    (id : ScopeId) :
    (f.addChild parent).get? id =
      if id.index = f.size then some ⟨some parent, []⟩ else f.get? id := by
  simp [addChild, h, get?_push]

theorem get?_set (f : Forest) (id : ScopeId) (name : String) (value : Expr) (other : ScopeId) :
    (f.set id name value).get? other =
      if id.index = other.index then (f.get? other).map (Scope.insert · name value)
      else f.get? other := by
  simp only [get?, set, Array.getElem?_modify]

theorem get?_set_of_ne (f : Forest) {id other : ScopeId} (hne : other ≠ id) (name : String)
    (value : Expr) : (f.set id name value).get? other = f.get? other := by
  have hindex : id.index ≠ other.index := fun hsame => hne (congrArg ScopeId.mk hsame.symm)
  rw [get?_set, if_neg hindex]

theorem parent?_set (f : Forest) (id : ScopeId) (name : String) (value : Expr)
    (other : ScopeId) :
    (f.set id name value).parent? other = f.parent? other := by
  unfold parent?
  rw [get?_set]
  split
  · cases f.get? other with
    | none =>
        rfl
    | some scope =>
        rfl
  · rfl

theorem local?_set (f : Forest) (id : ScopeId) (name : String) (value : Expr) (other : ScopeId)
    (key : String) :
    (f.set id name value).local? other key =
      if id = other ∧ other.index < f.size ∧ key = name then some value
      else f.local? other key := by
  by_cases hid : id = other
  · subst hid
    rw [local?, local?, get?_set, if_pos rfl]
    cases hscope : f.get? id with
    | none =>
        have hsize := (f.get?_eq_none_iff id).mp hscope
        rw [if_neg fun h => absurd h.2.1 (Nat.not_lt_of_le hsize)]
        rfl
    | some scope =>
        have hsize := index_lt_of_get? hscope
        by_cases hkey : key = name
        · rw [if_pos ⟨rfl, hsize, hkey⟩, hkey]
          simp [Scope.local?, Scope.insert]
        · have hother : (key == name) = false := beq_eq_false_iff_ne.mpr hkey
          rw [if_neg fun h => hkey h.2.2]
          simp [Scope.local?, Scope.insert, List.lookup_cons, hother]
  · rw [if_neg fun h => hid h.1, local?, local?, get?_set_of_ne f (Ne.symm hid)]

theorem parent?_addChild (f : Forest) {parent : ScopeId} (h : parent.index < f.size)
    (id : ScopeId) :
    (f.addChild parent).parent? id = if id.index = f.size then some parent else f.parent? id := by
  rw [parent?, get?_addChild f h]
  split <;> rfl

theorem local?_addChild (f : Forest) {parent : ScopeId} (h : parent.index < f.size)
    (id : ScopeId) (name : String) : (f.addChild parent).local? id name = f.local? id name := by
  rw [local?, local?, get?_addChild f h]
  split
  · rename_i hindex
    rw [(f.get?_eq_none_iff id).mpr (Nat.le_of_eq hindex.symm)]
    rfl
  · rfl

theorem binds_addChild_fresh (f : Forest) (parent : ScopeId) (name : String) :
    (f.addChild parent).binds f.fresh name = false := by
  have hpush (p : Option ScopeId) (h : ∀ q, p = some q → q.index < f.size) :
      (f.push p h).binds f.fresh name = false := by
    rw [binds, local?, get?_push, if_pos (show f.fresh.index = f.size from rfl)]
    rfl
  unfold addChild
  split
  · exact hpush _ _
  · exact hpush _ _

theorem parent?_lt {f : Forest} {id p : ScopeId} (h : f.parent? id = some p) :
    p.index < id.index := by
  unfold parent? get? at h
  cases hget : f.scopes[id.index]? with
  | none =>
      rw [hget] at h
      cases h
  | some scope =>
      rw [hget] at h
      obtain ⟨hid, hscope⟩ := Array.getElem?_eq_some_iff.mp hget
      apply f.parent_lt id.index hid p
      rw [hscope]
      exact h

/-!
# Chains

Fuel above the number of a scope makes no difference, so a chain is the scope
followed by the chain of its parent.
-/

theorem chainFor_eq_chainFor (f : Forest) (fuel fuel' : Nat) (id : ScopeId)
    (h : id.index < fuel) (h' : id.index < fuel') :
    f.chainFor fuel id = f.chainFor fuel' id := by
  induction fuel generalizing fuel' id with
  | zero =>
      omega
  | succ fuel ih =>
      cases fuel' with
      | zero =>
          omega
      | succ fuel' =>
          unfold chainFor
          cases hget : f.get? id with
          | none =>
              rfl
          | some scope =>
              cases hparent : scope.parent with
              | none =>
                  simp [hparent]
              | some parent =>
                  have hlt : parent.index < id.index := by
                    apply parent?_lt (f := f)
                    simp [parent?, hget, hparent]
                  simp only [hparent]
                  rw [ih fuel' parent (by omega) (by omega)]

theorem chain_of_get?_eq_none (f : Forest) {id : ScopeId} (h : f.get? id = none) :
    f.chain id = [] := by
  unfold chain chainFor
  rw [h]

theorem chain_of_parent?_eq_none (f : Forest) {id : ScopeId}
    (hid : id.index < f.size) (h : f.parent? id = none) :
    f.chain id = [id] := by
  unfold chain chainFor
  cases hget : f.get? id with
  | none =>
      have := (f.get?_eq_none_iff id).mp hget
      omega
  | some scope =>
      have hparent : scope.parent = none := by
        simpa [parent?, hget] using h
      simp [hparent]

theorem chain_of_parent?_eq_some (f : Forest) {id parent : ScopeId}
    (h : f.parent? id = some parent) :
    f.chain id = id :: f.chain parent := by
  have hlt := parent?_lt h
  unfold chain
  rw [chainFor]
  cases hget : f.get? id with
  | none =>
      simp [parent?, hget] at h
  | some scope =>
      have hparent : scope.parent = some parent := by
        simpa [parent?, hget] using h
      simp only [hparent]
      rw [chainFor_eq_chainFor f id.index (parent.index + 1) parent hlt (Nat.lt_succ_self _)]

theorem depth_of_parent?_eq_some (f : Forest) {id parent : ScopeId}
    (h : f.parent? id = some parent) :
    f.depth id = f.depth parent + 1 := by
  simp [depth, chain_of_parent?_eq_some f h]

theorem searchFor_eq_findSome? {α : Type} (f : Forest) (ask : Scope → Option α)
    (fuel : Nat) (id : ScopeId) :
    f.searchFor ask fuel id =
      (f.chainFor fuel id).findSome? fun scope => (f.get? scope).bind ask := by
  induction fuel generalizing id with
  | zero =>
      rfl
  | succ fuel ih =>
      unfold searchFor chainFor
      cases hget : f.get? id with
      | none =>
          rfl
      | some scope =>
          cases hask : ask scope with
          | some answer =>
              cases hparent : scope.parent <;> simp [hparent, hget, hask]
          | none =>
              cases hparent : scope.parent with
              | none =>
                  simp [hparent, hget, hask]
              | some parent =>
                  simp [hparent, hget, hask, ih parent]

theorem lookup_eq_findSome? (f : Forest) (id : ScopeId) (name : String) (mode : LookupMode) :
    f.lookup id name mode =
      (f.chain id).findSome? fun scope => (f.get? scope).bind (Scope.visible? · name mode) :=
  searchFor_eq_findSome? f _ _ _

/-- A lookup takes the first value on the chain that the mode accepts. -/
theorem lookup_eq_findSome?_local? (f : Forest) (id : ScopeId) (name : String)
    (mode : LookupMode) :
    f.lookup id name mode =
      (f.chain id).findSome? fun scope => (f.local? scope name).filter mode.accepts := by
  rw [lookup_eq_findSome?]
  congr 1
  funext scope
  rw [local?]
  cases f.get? scope <;> rfl

theorem lookup_of_local? {f : Forest} {id : ScopeId} {name : String} {value : Expr}
    (h : f.local? id name = some value) : f.lookup id name .nearest = some value := by
  rcases Option.bind_eq_some_iff.mp h with ⟨scope, hscope, hlocal⟩
  rw [lookup, searchFor, hscope]
  simp only [Scope.visible?, hlocal]
  rfl

end Forest
end ScopeLisp
