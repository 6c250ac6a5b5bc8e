import ScopeLisp.Eval.Library

/-!
# Closed stores

## Extents

The extent of a store counts its scopes and the functions created in it.  An
expression lies within an extent when every function in it was created there,
is at home in one of its scopes and, if it is native, is a builtin.

## What stays closed

A store is closed when all values that its scopes bind lie within its extent.
The library makes closed stores, and every operation on a store keeps it closed.
-/

namespace ScopeLisp

/-!
# Extents

An extent covers another one when it has at least as many scopes and functions.
-/

structure Extent where
  scopes : Nat
  functions : Nat

namespace Extent

def Covers (y x : Extent) : Prop :=
  x.scopes ≤ y.scopes ∧ x.functions ≤ y.functions

theorem covers_refl (x : Extent) : x.Covers x :=
  ⟨Nat.le_refl _, Nat.le_refl _⟩

theorem Covers.trans {x y z : Extent} (hzy : z.Covers y) (hyx : y.Covers x) : z.Covers x :=
  ⟨Nat.le_trans hyx.1 hzy.1, Nat.le_trans hyx.2 hzy.2⟩

end Extent

def ScopeId.Within (x : Extent) (id : ScopeId) : Prop :=
  id.index < x.scopes

theorem ScopeId.exists_eq_add {id : ScopeId} {n : Nat} (h : n ≤ id.index) :
    ∃ k, id = ⟨n + k⟩ := by
  rcases Nat.exists_eq_add_of_le h with ⟨k, hk⟩
  exact ⟨k, congrArg ScopeId.mk hk⟩

def Identity.Within (x : Extent) (identity : Identity) : Prop :=
  identity.number < x.functions ∧ identity.home.Within x

def Routine.IsBuiltin : Routine → Prop
  | .builtin _ => True
  | .host _ => False

namespace Expr

/-!
# Expressions within an extent

What lies within an extent lies within every extent that covers it.
-/

mutual

/-- Expressions all of whose functions belong to an extent. -/
def Within (x : Extent) : Expr → Prop
  | .quoted inner => Within x inner
  | .list items => WithinAll x items
  | .native identity _ routine => identity.Within x ∧ routine.IsBuiltin
  | .lambda identity _ body => identity.Within x ∧ WithinAll x body
  | _ => True

def WithinAll (x : Extent) : List Expr → Prop
  | [] => True
  | e :: rest => Within x e ∧ WithinAll x rest

end

variable {x y : Extent}

theorem withinAll_iff {items : List Expr} : WithinAll x items ↔ ∀ e ∈ items, e.Within x := by
  induction items with
  | nil =>
      simp [WithinAll]
  | cons e rest ih =>
      simp [WithinAll, ih]

mutual

theorem Within.mono (h : y.Covers x) : (e : Expr) → e.Within x → e.Within y
  | .quoted inner, he => Within.mono h inner he
  | .list items, he => WithinAll.mono h items he
  | .native _ _ _, he =>
      ⟨⟨Nat.lt_of_lt_of_le he.1.1 h.2, Nat.lt_of_lt_of_le he.1.2 h.1⟩, he.2⟩
  | .lambda _ _ body, he =>
      ⟨⟨Nat.lt_of_lt_of_le he.1.1 h.2, Nat.lt_of_lt_of_le he.1.2 h.1⟩,
        WithinAll.mono h body he.2⟩
  | .atom _, _ => trivial
  | .str _, _ => trivial
  | .num _, _ => trivial
  | .null, _ => trivial

theorem WithinAll.mono (h : y.Covers x) : (items : List Expr) →
    WithinAll x items → WithinAll y items
  | [], _ => trivial
  | e :: rest, he => ⟨Within.mono h e he.1, WithinAll.mono h rest he.2⟩

end

end Expr

/-!
# Scopes and forests

A forest extends another one when the scopes of that one are as they are there.
Scopes that are no part of the base may be written to.
-/

def Scope.Within (x : Extent) (scope : Scope) : Prop :=
  ∀ binding ∈ scope.bindings, binding.2.Within x

theorem Scope.Within.mono {x y : Extent} {scope : Scope} (h : y.Covers x)
    (hscope : scope.Within x) : scope.Within y := by
  intro binding hmem
  exact Expr.Within.mono h binding.2 (hscope binding hmem)

theorem Scope.Within.insert {x : Extent} {scope : Scope} (h : scope.Within x) (name : String)
    {value : Expr} (hvalue : value.Within x) : (scope.insert name value).Within x := by
  intro binding hmem
  cases hmem with
  | head =>
      exact hvalue
  | tail _ hmem =>
      exact h binding hmem

theorem Scope.Within.visible {x : Extent} {scope : Scope} (h : scope.Within x) {name : String}
    {mode : LookupMode} {value : Expr} (hvalue : scope.visible? name mode = some value) :
    value.Within x := by
  unfold Scope.visible? Scope.local? at hvalue
  rw [Option.filter_eq_some_iff] at hvalue
  obtain ⟨before, after, hbindings, _⟩ := List.lookup_eq_some_iff.mp hvalue.1
  exact h (name, value) (by simp [hbindings])

def Forest.Extends (f base : Forest) : Prop :=
  base.size ≤ f.size ∧ ∀ id : ScopeId, id.index < base.size → f.get? id = base.get? id

namespace Forest

theorem extends_refl (f : Forest) : f.Extends f :=
  ⟨Nat.le_refl _, fun _ _ => rfl⟩

theorem Extends.trans {f g h : Forest} (hgf : h.Extends g) (hfg : g.Extends f) : h.Extends f := by
  refine ⟨Nat.le_trans hfg.1 hgf.1, fun id hid => ?_⟩
  rw [hgf.2 id (Nat.lt_of_lt_of_le hid hfg.1), hfg.2 id hid]

theorem Extends.addChild {f base : Forest} (h : f.Extends base) {parent : ScopeId}
    (hparent : parent.index < f.size) : (f.addChild parent).Extends base := by
  have hsize := h.1
  refine ⟨by rw [size_addChild]; omega, fun id hid => ?_⟩
  rw [get?_addChild f hparent, if_neg (by omega), h.2 id hid]

theorem Extends.set {f base : Forest} (h : f.Extends base) {id : ScopeId}
    (hid : base.size ≤ id.index) (name : String) (value : Expr) :
    (f.set id name value).Extends base := by
  refine ⟨by rw [size_set]; exact h.1, fun other hother => ?_⟩
  rw [get?_set, if_neg (by omega), h.2 other hother]

end Forest

namespace Store

/-!
# Stores

The values of a closed store lie within its own extent.  Every step of
evaluation keeps it closed.
-/

def extent (s : Store) : Extent :=
  ⟨s.forest.size, s.functions⟩

/-- A store all of whose scopes bind values of its own extent. -/
def Closed (s : Store) : Prop :=
  ∀ id scope, s.forest.get? id = some scope → scope.Within s.extent

variable {s : Store}

theorem Closed.lookup_within (hs : s.Closed) {id : ScopeId} {name : String} {mode : LookupMode}
    {value : Expr} (h : s.lookup id name mode = some value) : value.Within s.extent := by
  rw [Store.lookup, Forest.lookup_eq_findSome?] at h
  obtain ⟨found, _, hfound⟩ := List.exists_of_findSome?_eq_some h
  obtain ⟨scope, hscope, hvalue⟩ := Option.bind_eq_some_iff.mp hfound
  exact (hs found scope hscope).visible hvalue

theorem Closed.addRoot (hs : s.Closed) : s.addRoot.Closed := by
  intro id scope hscope
  have hcovers : s.addRoot.extent.Covers s.extent := by
    simp [Extent.Covers, extent, Store.addRoot]
  simp only [Store.addRoot, Forest.get?_addRoot] at hscope
  split at hscope
  · cases hscope
    intro binding hmem
    cases hmem
  · exact (hs id scope hscope).mono hcovers

theorem Closed.addChild (hs : s.Closed) {parent : ScopeId} (hparent : parent.Within s.extent) :
    (s.addChild parent).Closed := by
  intro id scope hscope
  have hcovers : (s.addChild parent).extent.Covers s.extent := by
    simp [Extent.Covers, extent, Store.addChild]
  simp only [Store.addChild, Forest.get?_addChild s.forest hparent] at hscope
  split at hscope
  · cases hscope
    intro binding hmem
    cases hmem
  · exact (hs id scope hscope).mono hcovers

theorem Closed.set (hs : s.Closed) (id : ScopeId) (name : String) {value : Expr}
    (hvalue : value.Within s.extent) :
    Closed { s with forest := s.forest.set id name value } := by
  intro other scope hscope
  have hextent : extent { s with forest := s.forest.set id name value } = s.extent := by
    simp [extent]
  rw [hextent]
  simp only [Forest.get?_set] at hscope
  split at hscope
  · obtain ⟨old, hold, rfl⟩ := Option.map_eq_some_iff.mp hscope
    exact (hs other old hold).insert name hvalue
  · exact hs other scope hscope

theorem covers_addFunction (s : Store) : s.addFunction.extent.Covers s.extent :=
  ⟨Nat.le_refl _, Nat.le_succ _⟩

theorem Closed.addFunction (hs : s.Closed) : s.addFunction.Closed := by
  intro id scope hscope
  exact (hs id scope hscope).mono s.covers_addFunction

/-!
# The library

A library is one scope, and it may be added to any closed store.  Its root has
to be there for the natives whose home it is.
-/

theorem within_of_mem_libraryConstants {constant : String × Expr}
    (hmem : constant ∈ libraryConstants) (x : Extent) : constant.2.Within x := by
  simp only [libraryConstants, List.mem_cons, List.not_mem_nil, or_false] at hmem
  obtain rfl | rfl := hmem <;> trivial

theorem Closed.addBuiltin (hs : s.Closed) {root : ScopeId} (hroot : root.Within s.extent)
    (operation : Builtin) : (s.addBuiltin root operation).Closed := by
  apply hs.addFunction.set root operation.name
  exact ⟨⟨Nat.lt_succ_self _, hroot⟩, trivial⟩

theorem size_addLibrary (s : Store) : s.addLibrary.forest.size = s.forest.size + 1 := by
  apply addLibrary_induction (p := fun t => t.forest.size = s.forest.size + 1)
  case root => exact Forest.size_addRoot _
  case constant =>
    intro t constant _ ht
    exact (Forest.size_set ..).trans ht
  case builtin =>
    intro t operation ht
    exact (Forest.size_set ..).trans ht

theorem Closed.addLibrary (hs : s.Closed) : s.addLibrary.Closed := by
  have hboth : s.addLibrary.Closed ∧ s.forest.fresh.index < s.addLibrary.forest.size := by
    apply addLibrary_induction (p := fun t => t.Closed ∧ s.forest.fresh.index < t.forest.size)
    case root =>
      exact ⟨hs.addRoot, Nat.lt_of_lt_of_eq (Nat.lt_succ_self _) (s.forest.size_addRoot).symm⟩
    case constant =>
      intro t constant hmem ht
      exact ⟨ht.1.set _ _ (within_of_mem_libraryConstants hmem _),
        Nat.lt_of_lt_of_eq ht.2 (Forest.size_set ..).symm⟩
    case builtin =>
      intro t operation ht
      exact ⟨ht.1.addBuiltin ht.2 operation, Nat.lt_of_lt_of_eq ht.2 (Forest.size_set ..).symm⟩
  exact hboth.1

theorem closed_empty : Store.empty.Closed := by
  intro id scope hscope
  simp [Store.empty, Forest.empty, Forest.get?] at hscope

theorem closed_library : Store.library.Closed :=
  closed_empty.addLibrary

theorem first_within_library : Store.first.Within Store.library.extent := by
  show 0 < Store.empty.addLibrary.forest.size
  rw [size_addLibrary]
  exact Nat.succ_pos _

end Store
end ScopeLisp
