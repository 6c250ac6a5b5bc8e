import ScopeLisp.Eval.Host
import ScopeLisp.Proofs.Growth
import ScopeLisp.Proofs.Invariants

/-!
# Scopes that only grow

## Evaluation and older scopes

An evaluation binds names in the scopes that it opens itself and nowhere else.
This holds with any natives of the host, as long as these bind nothing in older
scopes themselves.

## Runs of a host

A host makes scopes, binds names, registers natives and evaluates expressions,
in any order.  Through all of this a scope keeps its parent, its depth and each
of its bindings, and it gets a new binding only when the host binds a name in
this very scope.
-/

namespace ScopeLisp

/-!
# Lineage

The line of a scope leads from the scope itself out to a root.  Its length is
the depth of the scope.
-/

namespace Forest

/-- A scope and the scopes around it, from the inside out to a root. -/
inductive Lineage (f : Forest) : ScopeId → List ScopeId → Prop where
  | root {id : ScopeId} (hid : id.index < f.size) (h : f.parent? id = none) : Lineage f id [id]
  | child {id parent : ScopeId} {line : List ScopeId} (h : f.parent? id = some parent)
      (hline : Lineage f parent line) : Lineage f id (id :: line)

theorem lineage_chain (f : Forest) {id : ScopeId} (hid : id.index < f.size) :
    f.Lineage id (f.chain id) := by
  -- A parent comes before its children, so the induction is on the number of the scope.
  induction hindex : id.index using Nat.strongRecOn generalizing id with
  | _ n ih =>
      cases hparent : f.parent? id with
      | none =>
          rw [chain_of_parent?_eq_none f hid hparent]
          exact .root hid hparent
      | some parent =>
          have hlt := parent?_lt hparent
          rw [chain_of_parent?_eq_some f hparent]
          exact .child hparent (ih parent.index (hindex ▸ hlt) (Nat.lt_trans hlt hid) rfl)

/-!
# Forests that grow

A forest that grows keeps every scope, with its parent and its bindings.
-/

structure KeepsParents (f g : Forest) : Prop where
  size_le : f.size ≤ g.size
  parent?_eq {id : ScopeId} : id.index < f.size → g.parent? id = f.parent? id

/-- What stays of a forest that grows: every scope, with its parent and its bindings. -/
structure Persists (f g : Forest) : Prop extends f.KeepsParents g where
  local?_eq {id : ScopeId} {name : String} {value : Expr} :
    f.local? id name = some value → g.local? id name = some value

theorem KeepsParents.trans {f g h : Forest} (hfg : f.KeepsParents g) (hgh : g.KeepsParents h) :
    f.KeepsParents h where
  size_le := Nat.le_trans hfg.size_le hgh.size_le
  parent?_eq hid := by
    rw [hgh.parent?_eq (Nat.lt_of_lt_of_le hid hfg.size_le), hfg.parent?_eq hid]

theorem Persists.trans {f g h : Forest} (hfg : f.Persists g) (hgh : g.Persists h) :
    f.Persists h where
  toKeepsParents := hfg.toKeepsParents.trans hgh.toKeepsParents
  local?_eq hvalue := hgh.local?_eq (hfg.local?_eq hvalue)

theorem KeepsParents.lineage {f g : Forest} (h : f.KeepsParents g) {id : ScopeId}
    {line : List ScopeId} (hid : id.index < f.size) (hline : f.Lineage id line) :
    g.Lineage id line := by
  induction hline with
  | root _ hparent =>
      apply Lineage.root (Nat.lt_of_lt_of_le hid h.size_le)
      rw [h.parent?_eq hid, hparent]
  | child hparent _ ih =>
      apply Lineage.child
      · rw [h.parent?_eq hid, hparent]
      · exact ih (Nat.lt_trans (parent?_lt hparent) hid)

theorem Lineage.depth_eq {f : Forest} {id : ScopeId} {line : List ScopeId}
    (h : f.Lineage id line) : f.depth id = line.length := by
  induction h with
  | root hid hparent =>
      rw [depth, chain_of_parent?_eq_none f hid hparent, List.length_singleton]
  | child hparent _ ih =>
      rw [depth_of_parent?_eq_some f hparent, ih, List.length_cons]

theorem index_lt_of_local?_eq_some {f : Forest} {id : ScopeId} {name : String} {value : Expr}
    (h : f.local? id name = some value) : id.index < f.size := by
  rcases Nat.lt_or_ge id.index f.size with hid | hid
  · exact hid
  · rw [local?, (f.get?_eq_none_iff id).mpr hid] at h
    cases h

theorem index_lt_of_parent? {f : Forest} {id parent : ScopeId} (h : f.parent? id = some parent) :
    id.index < f.size := by
  apply Nat.lt_of_not_le
  intro hsize
  rw [parent?, (f.get?_eq_none_iff id).mpr hsize] at h
  cases h

theorem Extends.local?_eq {f base : Forest} (h : f.Extends base) {id : ScopeId}
    (hid : id.index < base.size) (name : String) : f.local? id name = base.local? id name := by
  rw [local?, local?, h.2 id hid]

theorem Extends.persists {f base : Forest} (h : f.Extends base) : base.Persists f where
  size_le := h.1
  parent?_eq hid := by
    rw [parent?, parent?, h.2 _ hid]
  local?_eq hvalue := by
    rw [h.local?_eq (index_lt_of_local?_eq_some hvalue), hvalue]

theorem extends_push (f : Forest) (parent : Option ScopeId)
    (h : ∀ p, parent = some p → p.index < f.size) : (f.push parent h).Extends f := by
  constructor
  · rw [size_push]
    exact Nat.le_succ _
  · intro id hid
    rw [get?_push, if_neg (Nat.ne_of_lt hid)]

theorem extends_addRoot (f : Forest) : f.addRoot.Extends f :=
  extends_push f none _

theorem extends_addChild (f : Forest) (parent : ScopeId) : (f.addChild parent).Extends f := by
  unfold addChild
  split
  · exact extends_push f (some parent) _
  · exact extends_addRoot f

/-!
# Single bindings

A name that a scope did not bind may be bound in it, and everything else
persists.
-/

theorem keepsParents_set (f : Forest) (id : ScopeId) (name : String) (value : Expr) :
    f.KeepsParents (f.set id name value) where
  size_le := Nat.le_of_eq (size_set ..).symm
  parent?_eq _ := parent?_set ..

theorem persists_set {f : Forest} {id : ScopeId} {name : String}
    (hunbound : f.local? id name = none)
    (value : Expr) : f.Persists (f.set id name value) where
  toKeepsParents := f.keepsParents_set id name value
  local?_eq {other key bound} hbound := by
    rw [local?_set]
    split
    · rename_i hsame
      rcases hsame with ⟨rfl, _, rfl⟩
      rw [hunbound] at hbound
      cases hbound
    · exact hbound

end Forest

/-!
# Evaluation

An evaluation leaves the scopes of any base untouched and binds names in
younger ones only.  A native is asked to do the same if the evaluations that it
asks for do.
-/

namespace Invariant

def extending (base : Forest) : Invariant where
  holds s := s.forest.Extends base
  opened id := base.size ≤ id.index
  addChild {s} parent hs := ⟨(s.forest.extends_addChild parent).trans hs, hs.1⟩
  set name value hs hid := hs.set hid name value
  addFunction hs := hs
  enter hs := hs
  leave hs := hs

theorem Outcome.storeAfter {I : Invariant} {α : Type} {p : α → Prop}
    {outcome : EStateM.Result EvalError Store α} (h : I.Outcome p outcome) :
    I.holds (EvalM.storeAfter outcome) := by
  cases h with
  | ok _ hstore =>
      exact hstore
  | error hstore =>
      exact hstore

end Invariant

/--
A native that binds nothing itself: the scopes of any base stay as they are if
the evaluations that it asks for leave them so.
-/
def NativeBody.BindsNothing (body : NativeBody) : Prop :=
  ∀ base, (Invariant.extending base).Calls body

namespace Interpreter

/-- Older scopes are the same after an evaluation, whether it fails or not. -/
theorem evalAt_extends {i : Interpreter} (hi : ∀ key, (i.host key).BindsNothing) (levels : Nat)
    (scope : ScopeId) (e : Expr) (mode : LookupMode) (s : Store) :
    (EvalM.storeAfter (i.evalAt levels scope e mode s)).forest.Extends s.forest := by
  have hevaluates : (Invariant.extending s.forest).Evaluates (i.evalAt levels) :=
    Invariant.evalAt (fun key => hi key s.forest) levels
  exact (hevaluates scope e mode s s.forest.extends_refl).storeAfter

end Interpreter

/-!
# Runs

A host makes scopes, binds names, registers natives and evaluates expressions.
Each operation adds scopes, or binds one name in a scope that did not bind it.
-/

inductive Operation where
  | addRoot
  | addLibrary
  | addChild (parent : ScopeId)
  | bind (scope : ScopeId) (name : String) (value : Expr)
  | register (scope : ScopeId) (name : String) (routine : Routine)
  | execute (limit : Nat) (scope : ScopeId) (e : Expr) (mode : LookupMode)

namespace Operation

def apply (i : Interpreter) (s : Store) : Operation → Store
  | .addRoot => s.addRoot
  | .addLibrary => s.addLibrary
  | .addChild parent => s.addChild parent
  | .bind scope name value => EvalM.storeAfter (EvalM.bindName scope name value s)
  | .register scope name routine => EvalM.storeAfter (EvalM.register scope name routine s)
  | .execute limit scope e mode =>
      EvalM.storeAfter (Interpreter.eval { i with limit := limit } scope e mode s)

def run (i : Interpreter) (s : Store) (operations : List Operation) : Store :=
  operations.foldl (apply i) s

/-- Operations that bind a name in a scope of a store, with the value that they give it. -/
inductive Binds (s : Store) (id : ScopeId) (name : String) : Expr → Operation → Prop where
  | bind (value : Expr) : Binds s id name value (.bind id name value)
  | register (routine : Routine) :
      Binds s id name (.native ⟨s.functions, id⟩ name routine) (.register id name routine)

/-- What a single operation may do to the scopes that are there. -/
inductive Effect (s t : Store) (operation : Operation) : Prop where
  | growth (h : t.forest.Extends s.forest)
  | binding {id : ScopeId} {name : String} {value : Expr} (hbinds : operation.Binds s id name value)
      (hunbound : s.forest.local? id name = none) (h : t.forest = s.forest.set id name value)

theorem effect_bindName {s : Store} (s' : Store) {operation : Operation} {id : ScopeId}
    {name : String} {value : Expr} (hforest : s'.forest = s.forest)
    (hbinds : operation.Binds s id name value) :
    Effect s (EvalM.storeAfter (EvalM.bindName id name value s')) operation := by
  unfold EvalM.bindName
  rw [hforest]
  split
  · apply Effect.growth
    show s'.forest.Extends s.forest
    rw [hforest]
    exact s.forest.extends_refl
  · rename_i hbound
    apply Effect.binding hbinds
    · rw [Forest.binds, Bool.not_eq_true, Option.isSome_eq_false_iff, Option.isNone_iff_eq_none]
        at hbound
      exact hbound
    · rfl

/-!
# Effects of operations

A library scope is new, whatever is bound in it.  A name that is new in an old
scope was bound there by the operation.
-/

theorem extends_addLibrary (s : Store) : s.addLibrary.forest.Extends s.forest := by
  apply Store.addLibrary_induction (p := fun t => t.forest.Extends s.forest)
  case root => exact s.forest.extends_addRoot
  case constant =>
    intro t constant _ ht
    exact ht.set (Nat.le_refl _) constant.1 constant.2
  case builtin =>
    intro t operation ht
    exact ht.set (Nat.le_refl _) operation.name _

variable {i : Interpreter}

theorem apply_effect (hi : ∀ key, (i.host key).BindsNothing) (s : Store) (operation : Operation) :
    Effect s (operation.apply i s) operation := by
  cases operation with
  | addRoot =>
      exact .growth s.forest.extends_addRoot
  | addLibrary =>
      exact .growth (extends_addLibrary s)
  | addChild parent =>
      exact .growth (s.forest.extends_addChild parent)
  | bind scope name value =>
      exact effect_bindName s rfl (.bind value)
  | register scope name routine =>
      exact effect_bindName s.addFunction rfl (.register routine)
  | execute limit scope e mode =>
      exact .growth
        (Interpreter.evalAt_extends (i := { i with limit := limit }) hi _ scope e mode s)

theorem Effect.persists {s t : Store} {operation : Operation} (h : Effect s t operation) :
    s.forest.Persists t.forest := by
  cases h with
  | growth h =>
      exact h.persists
  | binding _ hunbound h =>
      rw [h]
      exact Forest.persists_set hunbound _

theorem Effect.binds {s t : Store} {operation : Operation} (h : Effect s t operation)
    {id : ScopeId} (hid : id.index < s.forest.size) {name : String} {value : Expr}
    (hunbound : s.forest.local? id name = none) (hbound : t.forest.local? id name = some value) :
    operation.Binds s id name value := by
  cases h with
  | growth h =>
      rw [h.local?_eq hid, hunbound] at hbound
      cases hbound
  | binding hbinds _ h =>
      rw [h, Forest.local?_set] at hbound
      split at hbound
      · rename_i hsame
        rcases hsame with ⟨rfl, _, rfl⟩
        cases hbound
        exact hbinds
      · rw [hunbound] at hbound
        cases hbound

theorem run_persists (hi : ∀ key, (i.host key).BindsNothing) (s : Store)
    (operations : List Operation) : s.forest.Persists (run i s operations).forest := by
  induction operations generalizing s with
  | nil =>
      exact s.forest.extends_refl.persists
  | cons operation rest ih =>
      exact (apply_effect hi s operation).persists.trans (ih (operation.apply i s))

theorem run_binds (hi : ∀ key, (i.host key).BindsNothing) (s : Store) {id : ScopeId}
    (hid : id.index < s.forest.size) {name : String} {value : Expr} (operations : List Operation)
    (hunbound : s.forest.local? id name = none)
    (hbound : (run i s operations).forest.local? id name = some value) :
    ∃ before operation after, operations = before ++ operation :: after ∧
      (run i s before).forest.local? id name = none ∧
      operation.Binds (run i s before) id name value := by
  induction operations generalizing s with
  | nil =>
      change s.forest.local? id name = some value at hbound
      rw [hunbound] at hbound
      cases hbound
  | cons operation rest ih =>
      have heffect := apply_effect hi s operation
      cases hnext : (operation.apply i s).forest.local? id name with
      | none =>
          have hid' := Nat.lt_of_lt_of_le hid heffect.persists.size_le
          rcases ih (operation.apply i s) hid' hnext hbound with
            ⟨before, later, after, rfl, hbefore, hbinds⟩
          exact ⟨operation :: before, later, after, rfl, hbefore, hbinds⟩
      | some first =>
          have hlast := (run_persists hi (operation.apply i s) rest).local?_eq hnext
          change (run i (operation.apply i s) rest).forest.local? id name = some value at hbound
          rw [hbound] at hlast
          cases hlast
          exact ⟨[], operation, rest, rfl, hunbound, heffect.binds hid hunbound hnext⟩

/--
Scopes form a forest that only grows, and that evaluation never edits.  From any
moment on a scope keeps its parent, the finite line of scopes up to its root,
its depth, which is one more than that of its parent, and each value that it
binds.  A name that it binds later was bound in this scope by an operation of
the host.  An evaluation leaves all older scopes as they are, whether it fails or
not.
-/
theorem scopes_append_only {i : Interpreter} (hi : ∀ key, (i.host key).BindsNothing) (s : Store) :
    (∀ (id : ScopeId) (operations : List Operation), id.index < s.forest.size →
      (run i s operations).forest.parent? id = s.forest.parent? id ∧
      (∃ line, s.forest.Lineage id line ∧ (run i s operations).forest.Lineage id line ∧
        s.forest.depth id = line.length ∧ (run i s operations).forest.depth id = line.length) ∧
      (∀ parent, s.forest.parent? id = some parent →
        (run i s operations).forest.depth id = (run i s operations).forest.depth parent + 1) ∧
      (∀ name value, s.forest.local? id name = some value →
        (run i s operations).forest.local? id name = some value) ∧
      ∀ name value, s.forest.local? id name = none →
        (run i s operations).forest.local? id name = some value →
          ∃ before operation after, operations = before ++ operation :: after ∧
            (run i s before).forest.local? id name = none ∧
            operation.Binds (run i s before) id name value) ∧
    ∀ (levels : Nat) (scope : ScopeId) (e : Expr) (mode : LookupMode) (id : ScopeId),
      id.index < s.forest.size →
        (EvalM.storeAfter (i.evalAt levels scope e mode s)).forest.get? id = s.forest.get? id := by
  constructor
  · intro id operations hid
    have hpersists := run_persists hi s operations
    have hline := s.forest.lineage_chain hid
    have hline' := hpersists.lineage hid hline
    refine ⟨hpersists.parent?_eq hid, ⟨_, hline, hline', hline.depth_eq, hline'.depth_eq⟩,
      ?_, ?_, ?_⟩
    · intro parent hparent
      rw [← hpersists.parent?_eq hid] at hparent
      exact Forest.depth_of_parent?_eq_some _ hparent
    · intro name value hvalue
      exact hpersists.local?_eq hvalue
    · intro name value hunbound hbound
      exact run_binds hi s hid operations hunbound hbound
  · intro levels scope e mode id hid
    exact (Interpreter.evalAt_extends hi levels scope e mode s).2 id hid

end Operation

/-!
# Host routines

None of the host routines binds a name itself.
-/

namespace HostRoutine

theorem body_bindsNothing (routine : HostRoutine) : routine.body.BindsNothing := by
  intro base eval heval scope args
  cases routine with
  | eval =>
      cases args with
      | nil =>
          exact Invariant.Acts.pure trivial
      | cons e rest =>
          exact heval scope e .expanding
  | scope =>
      apply Invariant.Acts.bind (Invariant.Acts.openScope scope)
      intro inner _
      exact Invariant.Acts.pure trivial
  | fail =>
      exact Invariant.Acts.throw _
  | _ =>
      exact Invariant.Acts.pure trivial

end HostRoutine

theorem Interpreter.withHost_bindsNothing (limit : Nat) (key : String) :
    ((Interpreter.withHost limit).host key).BindsNothing := by
  intro base eval heval scope args
  cases hkey : HostRoutine.ofKey? key with
  | none =>
      simp only [Interpreter.withHost, hkey]
      exact Invariant.Acts.pure trivial
  | some routine =>
      simp only [Interpreter.withHost, hkey]
      exact routine.body_bindsNothing base eval heval scope args

namespace Operation

/-- A run in which a native opens a scope, `x` is bound twice, and an evaluation fails midway. -/
def rebinding : List Operation :=
  [.addChild Store.first, .register ⟨1⟩ "n" (.host "scope"), .bind ⟨1⟩ "x" (.num .one),
    .execute 10 ⟨1⟩ (.list [.atom "do", .list [.atom "n"],
      .list [.atom "let", .list [.list [.atom "x", .str "shadow"]]], .list []]) .nearest,
    .bind ⟨1⟩ "x" .null]

theorem scopes_append_only_rebinding :
    (∀ key, ((Interpreter.withHost 10).host key).BindsNothing) ∧
    (run (.withHost 10) Store.library rebinding).forest.size = 4 ∧
    (run (.withHost 10) Store.library [.addChild Store.first]).forest.local? ⟨1⟩ "x" = none ∧
    (run (.withHost 10) Store.library rebinding).forest.local? ⟨1⟩ "x" = some (.num .one) ∧
    ∃ before operation after, rebinding.tail = before ++ operation :: after ∧
      operation.Binds (run (.withHost 10)
        (run (.withHost 10) Store.library [.addChild Store.first]) before) ⟨1⟩ "x" (.num .one) := by
  have hunbound : (run (.withHost 10) Store.library [.addChild Store.first]).forest.local? ⟨1⟩ "x" =
      none := rfl
  have hbound : (run (.withHost 10) Store.library rebinding).forest.local? ⟨1⟩ "x" =
      some (.num .one) := rfl
  have happend := scopes_append_only (Interpreter.withHost_bindsNothing 10)
    (run (.withHost 10) Store.library [.addChild Store.first])
  rcases (happend.1 ⟨1⟩ rebinding.tail (by decide)).2.2.2.2 "x" (.num .one) hunbound hbound with
    ⟨before, operation, after, hsplit, _, hbinds⟩
  exact ⟨Interpreter.withHost_bindsNothing 10, rfl, hunbound, hbound,
    before, operation, after, hsplit, hbinds⟩

end Operation
end ScopeLisp
