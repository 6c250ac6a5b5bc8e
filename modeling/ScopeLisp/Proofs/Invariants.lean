import ScopeLisp.Proofs.Tracking

/-!
# Invariants of evaluation

## What evaluation does to a store

Evaluation opens scopes, binds names in scopes that it has opened, makes
functions, and counts the evaluations in flight.  An invariant is a property of
stores that none of these steps destroys.  It then survives every evaluation,
whether this gives a value or fails.

## Natives

A native function of the host may do anything, so each invariant has to be asked
of it separately: the native keeps the invariant if the evaluator it is given
does.
-/

namespace ScopeLisp

/-!
# Invariants

An invariant says which stores are sound, and in which scopes names may be
bound without harm.
-/

/-- A property of stores, and scopes in which names may be bound without harm to it. -/
structure Invariant where
  holds : Store → Prop
  opened : ScopeId → Prop
  addChild {s : Store} (parent : ScopeId) :
    holds s → holds (s.addChild parent) ∧ opened s.forest.fresh
  set {s : Store} {id : ScopeId} (name : String) (value : Expr) :
    holds s → opened id → holds { s with forest := s.forest.set id name value }
  addFunction {s : Store} : holds s → holds s.addFunction
  enter {s : Store} : holds s → holds s.enter
  leave {s : Store} : holds s → holds s.leave

namespace Invariant

variable {I : Invariant} {α β : Type}

inductive Outcome (I : Invariant) (p : α → Prop) : EStateM.Result EvalError Store α → Prop where
  | ok {a : α} {s : Store} (hresult : p a) (hstore : I.holds s) : Outcome I p (.ok a s)
  | error {e : EvalError} {s : Store} (hstore : I.holds s) : Outcome I p (.error e s)

/-- Computations that keep the invariant. -/
def Acts (I : Invariant) (p : α → Prop) (x : EvalM α) : Prop :=
  ∀ s, I.holds s → I.Outcome p (x s)

def Evaluates (I : Invariant) (eval : Evaluator) : Prop :=
  ∀ scope e mode, I.Acts (fun _ => True) (eval scope e mode)

def Calls (I : Invariant) (body : NativeBody) : Prop :=
  ∀ eval, I.Evaluates eval → ∀ scope args, I.Acts (fun _ => True) (body eval scope args)

namespace Acts

variable {p : α → Prop} {q : β → Prop}

/-!
# Steps that keep an invariant

The steps of evaluation keep an invariant, and so do their compositions.
-/

theorem pure {a : α} (h : p a) : I.Acts p (Pure.pure a) := by
  intro s hs
  exact .ok h hs

theorem throw (e : EvalError) : I.Acts p (MonadExcept.throw e) := by
  intro s hs
  exact .error hs

theorem bind {x : EvalM α} {f : α → EvalM β} (h : I.Acts p x)
    (hnext : ∀ a, p a → I.Acts q (f a)) : I.Acts q (x >>= f) := by
  intro s hs
  have hfirst := h s hs
  cases hx : x s with
  | ok a t =>
      rw [hx] at hfirst
      rw [EvalM.bind_of_eq_ok hx]
      cases hfirst with
      | ok hresult hstore =>
          exact hnext a hresult t hstore
  | error e t =>
      rw [hx] at hfirst
      rw [EvalM.bind_of_eq_error hx]
      cases hfirst with
      | error hstore =>
          exact .error hstore

theorem ofExcept (x : Except EvalError α) : I.Acts (fun _ => True) (EvalM.ofExcept x) := by
  cases x with
  | ok a =>
      exact Acts.pure trivial
  | error e =>
      exact Acts.throw e

theorem openScope (parent : ScopeId) : I.Acts I.opened (EvalM.openScope parent) := by
  intro s hs
  rcases I.addChild parent hs with ⟨hstore, hopened⟩
  exact .ok hopened hstore

theorem newIdentity (home : ScopeId) : I.Acts (fun _ => True) (EvalM.newIdentity home) := by
  intro s hs
  exact .ok trivial (I.addFunction hs)

theorem bindName {scope : ScopeId} (h : I.opened scope) (name : String) (value : Expr) :
    I.Acts (fun _ => True) (EvalM.bindName scope name value) := by
  intro s hs
  unfold EvalM.bindName
  split
  · exact .error hs
  · exact .ok trivial (I.set name value hs h)

end Acts

theorem defineForm (eval : Evaluator) (scope : ScopeId) (args : List Expr) :
    I.Acts (fun _ => True) (ScopeLisp.defineForm eval scope args) := by
  apply Acts.bind (Acts.ofExcept _)
  rintro ⟨name, params, body⟩ _
  apply Acts.bind (Acts.newIdentity scope)
  intro identity _
  apply Acts.bind (Acts.openScope scope)
  intro inner hinner
  apply Acts.bind (Acts.bindName hinner name _)
  intro _ _
  exact Acts.pure trivial

/-!
# Evaluation

An invariant tracks an evaluation in a single world, to which all values belong.
-/

def tracking (I : Invariant) : Tracking where
  World := Unit
  Later _ _ := True
  value _ _ := True
  opened _ id := I.opened id
  store _ s := I.holds s
  later_refl _ := trivial
  later_trans _ _ := trivial
  value_later _ h := h
  opened_later _ h := h

theorem outcome_tracking {p : α → Prop} {x : EStateM.Result EvalError Store α} {w : Unit} :
    I.tracking.Outcome w (fun _ => p) x ↔ I.Outcome p x := by
  constructor
  · intro h
    cases h with
    | ok _ hresult hstore => exact .ok hresult hstore
    | error _ hstore => exact .error hstore
  · intro h
    cases h with
    | ok hresult hstore => exact @Tracking.Outcome.ok _ I.tracking w _ w _ _ trivial hresult hstore
    | error hstore => exact @Tracking.Outcome.error _ I.tracking w _ w _ _ trivial hstore

theorem acts_tracking {p : α → Prop} {x : EvalM α} {w : Unit} :
    I.tracking.Acts w (fun _ => p) x ↔ I.Acts p x :=
  forall_congr' fun _ => imp_congr_right fun _ => outcome_tracking

theorem evaluates_tracking {eval : Evaluator} : I.tracking.Evaluates eval ↔ I.Evaluates eval := by
  constructor
  · intro h scope e mode
    exact acts_tracking.mp (@h () e scope mode trivial)
  · intro h w e scope mode _
    exact acts_tracking.mpr (h scope e mode)

theorem tracking_lawful (I : Invariant) : I.tracking.Lawful where
  plain _ := trivial
  quoted _ := trivial
  item _ _ := trivial
  body _ := trivial
  lookup _ _ := trivial
  openScope _ parent := acts_tracking.mpr (Acts.openScope parent)
  bindName name h _ := acts_tracking.mpr (Acts.bindName h name _)
  define eval _ _ _ args scope _ := acts_tracking.mpr (defineForm eval scope args)
  enter {w _} h := ⟨w, trivial, I.enter h⟩
  leave {w _} h := ⟨w, trivial, I.leave h⟩

theorem Calls.tracking {body : NativeBody} (h : I.Calls body) : I.tracking.Calls body := by
  intro eval heval w args scope _
  exact acts_tracking.mpr (h eval (evaluates_tracking.mp heval) scope args)

theorem bindEach {eval : Evaluator} (heval : I.Evaluates eval) {inner : ScopeId}
    (hinner : I.opened inner) (scope : ScopeId) (pairs : List (Except EvalError (String × Expr))) :
    I.Acts (fun _ => True) (ScopeLisp.bindEach eval scope inner pairs) := by
  have hacts : I.tracking.Acts () (fun _ _ => True) (ScopeLisp.bindEach eval scope inner pairs) :=
    I.tracking_lawful.bindEach (evaluates_tracking.mpr heval) hinner scope fun _ _ _ => trivial
  exact acts_tracking.mp hacts

theorem invoke {i : Interpreter} (hi : ∀ key, I.Calls (i.host key)) {eval : Evaluator}
    (heval : I.Evaluates eval) (scope : ScopeId) (items : List Expr) :
    I.Acts (fun _ => True) (i.invoke eval scope items) := by
  have hacts : I.tracking.Acts () (fun _ _ => True) (i.invoke eval scope items) :=
    I.tracking_lawful.invoke (evaluates_tracking.mpr heval) (fun key => (hi key).tracking) scope
      fun _ _ => trivial
  exact acts_tracking.mp hacts

/-- An invariant that the natives of the host keep is kept by every evaluation. -/
theorem evalAt {i : Interpreter} (hi : ∀ key, I.Calls (i.host key)) (levels : Nat) :
    I.Evaluates (i.evalAt levels) := by
  apply evaluates_tracking.mp
  apply I.tracking_lawful.evalAt
  intro key
  exact (hi key).tracking

end Invariant
end ScopeLisp
