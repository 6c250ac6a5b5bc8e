import ScopeLisp.Proofs.Contract

/-!
# Tracking an evaluation

## Worlds

A tracking follows what an evaluation does to a store in a world that moves on
with it.  It says which stores, values and opened scopes belong to a world, and
what belongs to a world belongs to all later ones.

## From steps to evaluations

A tracking is lawful if it can follow the few things that evaluation does: to
open a scope, to bind a name in it, to define a function, and to begin and end.
It can then follow every evaluation, whether this gives a value or fails.  A
native of the host may do anything, so each has to be followed separately.
-/

namespace ScopeLisp

structure Tracking where
  World : Type
  Later : World → World → Prop
  value : World → Expr → Prop
  /-- Scopes in which names may be bound. -/
  opened : World → ScopeId → Prop
  store : World → Store → Prop
  later_refl (w : World) : Later w w
  later_trans {w₁ w₂ w₃ : World} : Later w₁ w₂ → Later w₂ w₃ → Later w₁ w₃
  value_later {w w' : World} {e : Expr} : Later w w' → value w e → value w' e
  opened_later {w w' : World} {id : ScopeId} : Later w w' → opened w id → opened w' id

namespace Tracking

variable {T : Tracking} {α β : Type}

inductive Outcome (T : Tracking) (w : T.World) (r : T.World → α → Prop) :
    EStateM.Result EvalError Store α → Prop where
  | ok {w' : T.World} {a : α} {s : Store} (hlater : T.Later w w') (hresult : r w' a)
      (hstore : T.store w' s) : Outcome T w r (.ok a s)
  | error {w' : T.World} {e : EvalError} {s : Store} (hlater : T.Later w w')
      (hstore : T.store w' s) : Outcome T w r (.error e s)

def Acts (T : Tracking) (w : T.World) (r : T.World → α → Prop) (x : EvalM α) : Prop :=
  ∀ s, T.store w s → T.Outcome w r (x s)

def evaluated (T : Tracking) (w : T.World) (x : Evaluated) : Prop :=
  T.value w x.value

def Evaluates (T : Tracking) (eval : Evaluator) : Prop :=
  ∀ ⦃w : T.World⦄ ⦃e : Expr⦄ (scope : ScopeId) (mode : LookupMode), T.value w e →
    T.Acts w T.evaluated (eval scope e mode)

def Calls (T : Tracking) (body : NativeBody) : Prop :=
  ∀ eval, T.Evaluates eval → ∀ ⦃w : T.World⦄ ⦃args : List Expr⦄ (scope : ScopeId),
    (∀ e ∈ args, T.value w e) → T.Acts w T.evaluated (body eval scope args)

/-- A tracking of what evaluation does. -/
structure Lawful (T : Tracking) : Prop where
  plain {w : T.World} {e : Expr} : e.IsPlain → T.value w e
  quoted {w : T.World} {e : Expr} : T.value w (.quoted e) → T.value w e
  item {w : T.World} {e : Expr} {items : List Expr} :
    T.value w (.list items) → e ∈ items → T.value w e
  body {w : T.World} {identity : Identity} {params : List String} {body : List Expr} :
    T.value w (.lambda identity params body) → T.value w (.list body)
  lookup {w : T.World} {s : Store} {scope : ScopeId} {name : String} {mode : LookupMode}
    {e : Expr} : T.store w s → s.lookup scope name mode = some e → T.value w e
  openScope (w : T.World) (parent : ScopeId) : T.Acts w T.opened (EvalM.openScope parent)
  bindName {w : T.World} {id : ScopeId} {e : Expr} (name : String) : T.opened w id →
    T.value w e → T.Acts w (fun _ _ => True) (EvalM.bindName id name e)
  define (eval : Evaluator) : T.Calls fun _ => defineForm eval
  enter {w : T.World} {s : Store} : T.store w s → ∃ w', T.Later w w' ∧ T.store w' s.enter
  leave {w : T.World} {s : Store} : T.store w s → ∃ w', T.Later w w' ∧ T.store w' s.leave

theorem Outcome.of_later {w w' : T.World} {r : T.World → α → Prop}
    {x : EStateM.Result EvalError Store α} (hw : T.Later w w') (h : T.Outcome w' r x) :
    T.Outcome w r x := by
  cases h with
  | ok hlater hresult hstore =>
      exact .ok (T.later_trans hw hlater) hresult hstore
  | error hlater hstore =>
      exact .error (T.later_trans hw hlater) hstore

/-!
# The contract of a tracking

A tracking is a contract in which all that belongs to a world may be evaluated,
and in which every error is allowed.
-/

def contract (T : Tracking) : Contract where
  World := T.World
  Later := T.Later
  code := T.value
  value := T.value
  opened := T.opened
  store := T.store
  fails _ := True
  later_refl := T.later_refl
  later_trans := T.later_trans
  code_later := T.value_later
  opened_later := T.opened_later
  fails_of_ordinary _ := trivial

theorem outcome_contract {w : T.World} {r : T.World → α → Prop}
    {x : EStateM.Result EvalError Store α} : T.contract.Outcome w r x ↔ T.Outcome w r x := by
  constructor
  · intro h
    cases h with
    | ok hlater hresult hstore => exact .ok hlater hresult hstore
    | error hlater _ hstore => exact .error hlater hstore
  · intro h
    cases h with
    | @ok w' a s hlater hresult hstore =>
        exact @Contract.Outcome.ok _ T.contract w r w' a s hlater hresult hstore
    | @error w' e s hlater hstore =>
        exact @Contract.Outcome.error _ T.contract w r w' e s hlater trivial hstore

theorem acts_contract {w : T.World} {r : T.World → α → Prop} {x : EvalM α} :
    T.contract.Acts w r x ↔ T.Acts w r x :=
  forall_congr' fun _ => imp_congr_right fun _ => outcome_contract

namespace Acts

variable {w : T.World}

theorem pure {r : T.World → α → Prop} {a : α} (h : r w a) : T.Acts w r (Pure.pure a) := by
  intro s hs
  exact .ok (T.later_refl w) h hs

theorem throw {r : T.World → α → Prop} (e : EvalError) :
    T.Acts w r (MonadExcept.throw e : EvalM α) := by
  intro s hs
  exact .error (T.later_refl w) hs

theorem bind {r : T.World → α → Prop} {r' : T.World → β → Prop} {x : EvalM α}
    {f : α → EvalM β} (h : T.Acts w r x)
    (hnext : ∀ w' a, T.Later w w' → r w' a → T.Acts w' r' (f a)) : T.Acts w r' (x >>= f) :=
  acts_contract.mp (Contract.Acts.bind (acts_contract.mpr h) fun w' a hlater hresult =>
    acts_contract.mpr (hnext w' a hlater hresult))

end Acts

theorem evaluates_contract {eval : Evaluator} : T.contract.Evaluates eval ↔ T.Evaluates eval := by
  constructor
  · intro h w e scope mode he
    exact acts_contract.mp (h scope mode he)
  · intro h w e scope mode he
    exact acts_contract.mpr (h scope mode he)

theorem Calls.contract {body : NativeBody} (h : T.Calls body) : T.contract.Calls body := by
  intro eval heval w args scope hargs
  exact acts_contract.mpr (h eval (evaluates_contract.mp heval) scope hargs)

theorem Lawful.contract (hT : T.Lawful) : T.contract.Lawful where
  plain h := hT.plain h
  item h hmem := hT.item h hmem
  body h := hT.body h
  lookup _ hs h := hT.lookup hs h
  openScope w parent := acts_contract.mpr (hT.openScope w parent)
  bindName name hid he := acts_contract.mpr (hT.bindName name hid he)
  define scope heval _ hargs :=
    acts_contract.mpr (hT.define _ _ (evaluates_contract.mp heval) scope hargs)

namespace Lawful

variable (hT : T.Lawful) {w : T.World}
include hT

theorem counted {r : T.World → α → Prop} (hr : ∀ w w' a, T.Later w w' → r w a → r w' a)
    {x : EvalM α} (h : ∀ w', T.Later w w' → T.Acts w' r x) : T.Acts w r (EvalM.counted x) := by
  intro s hs
  rcases hT.enter hs with ⟨w', hlater, henter⟩
  have hrun := (h w' hlater s.enter henter).of_later hlater
  unfold EvalM.counted
  generalize x s.enter = outcome at hrun
  cases hrun with
  | ok hrun hresult hstore =>
      rcases hT.leave hstore with ⟨last, hlast, hleave⟩
      exact .ok (T.later_trans hrun hlast) (hr _ _ _ hlast hresult) hleave
  | error hrun hstore =>
      rcases hT.leave hstore with ⟨last, hlast, hleave⟩
      exact .error (T.later_trans hrun hlast) hleave

/-!
# Evaluation

The counting of evaluations is followed as well, so a tracking follows
evaluation on every level.
-/

section Invocations

variable {eval : Evaluator} (heval : T.Evaluates eval)
include heval

theorem bindEach {inner : ScopeId} (hinner : T.opened w inner) (scope : ScopeId)
    {pairs : List (Except EvalError (String × Expr))}
    (hpairs : ∀ name e, .ok (name, e) ∈ pairs → T.value w e) :
    T.Acts w (fun _ _ => True) (ScopeLisp.bindEach eval scope inner pairs) :=
  acts_contract.mp (hT.contract.bindEach (evaluates_contract.mpr heval) hinner scope hpairs
    fun _ _ => trivial)

variable {i : Interpreter} (hi : ∀ key, T.Calls (i.host key))
include hi

theorem invoke (scope : ScopeId) {items : List Expr} (hitems : ∀ e ∈ items, T.value w e) :
    T.Acts w T.evaluated (i.invoke eval scope items) :=
  acts_contract.mp (hT.contract.invoke (evaluates_contract.mpr heval)
    (fun key => (hi key).contract) scope hitems)

theorem settle (rounds : Nat) {start : Evaluated} (hstart : T.evaluated w start) :
    T.Acts w T.evaluated (i.settle eval rounds start) := by
  induction rounds generalizing start w with
  | zero =>
      unfold Interpreter.settle
      split
      · exact Acts.throw _
      · contradiction
      · exact Acts.pure hstart
  | succ rounds ih =>
      unfold Interpreter.settle
      split
      · contradiction
      · rename_i items scope heq
        cases heq
        apply Acts.bind (hT.invoke heval hi scope fun e he => hT.item hstart he)
        intro w' next _ hnext
        exact ih hnext
      · exact Acts.pure hstart

theorem evalWith : T.Evaluates (i.evalWith eval) := by
  intro w e scope mode he
  unfold Interpreter.evalWith
  split
  · rename_i inner
    have hvalue : T.evaluated w ⟨inner, scope⟩ := hT.quoted he
    exact Acts.pure hvalue
  · apply Acts.bind (acts_contract.mp (hT.contract.lookupName scope he mode))
    intro w' found _ hfound
    apply hT.settle heval hi
    cases found with
    | none => exact hT.plain .null
    | some value => exact hfound value rfl
  · exact hT.settle heval hi _ he

end Invocations

/-- A tracking that can follow the natives of the host can follow every evaluation. -/
theorem evalAt {i : Interpreter} (hi : ∀ key, T.Calls (i.host key)) (levels : Nat) :
    T.Evaluates (i.evalAt levels) := by
  induction levels with
  | zero =>
      intro w e scope mode _
      exact Acts.throw _
  | succ levels ih =>
      intro w e scope mode he
      rw [Interpreter.evalAt_succ]
      apply hT.counted
      · intro w w' result hlater hresult
        exact T.value_later hlater hresult
      · intro w' hlater
        exact hT.evalWith ih hi scope mode (T.value_later hlater he)

end Lawful
end Tracking
end ScopeLisp
