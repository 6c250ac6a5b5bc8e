import Mathlib.Data.List.Forall2
import ScopeLisp.Eval.Interpreter

/-!
# Agreement of two runs

## What is compared

Many properties of evaluation compare two runs: under two limits, from two
stores, or one run with itself under an invariant.  An agreement says when
expressions, scopes and stores of two runs correspond, and what has to hold of
the few operations on a store.  Everything that evaluation does is built from
these operations, so two evaluations that start in correspondence stay in it.

## Worlds

Evaluation makes new scopes and functions.  What corresponds may therefore
depend on a world, which moves on while evaluation runs, and what corresponds
once does so in every later world.
-/

namespace ScopeLisp

/-!
# Expressions that look alike

Operations of the language look at the outermost node of a value only, and make
plain values.  Two expressions that agree in that node are therefore alike to
every operation.
-/

def EvalError.IsOrdinary (e : EvalError) : Prop :=
  e ≠ .unsettled ∧ ∀ limit, e ≠ .stackExhausted limit

namespace Expr

/--
Two expressions that agree in their outermost node.  The operation of a native
function is a builtin, and the body of a function counts as a list.
-/
inductive Layer (scope : ScopeId → ScopeId → Prop) (part : Expr → Expr → Prop) :
    Expr → Expr → Prop where
  | atom (name : String) : Layer scope part (.atom name) (.atom name)
  | str (text : String) : Layer scope part (.str text) (.str text)
  | num (value : Binary32) : Layer scope part (.num value) (.num value)
  | null : Layer scope part .null .null
  | quoted {e e' : Expr} (h : part e e') : Layer scope part (.quoted e) (.quoted e')
  | list {items items' : List Expr} (h : List.Forall₂ part items items') :
      Layer scope part (.list items) (.list items')
  | native (a b : Identity) (name : String) (operation : Builtin) :
      Layer scope part (.native a name (.builtin operation))
        (.native b name (.builtin operation))
  | lambda {a b : Identity} (params : List String) {body body' : List Expr}
      (hhome : scope a.home b.home) (hbody : part (.list body) (.list body')) :
      Layer scope part (.lambda a params body) (.lambda b params body')

inductive IsPlain : Expr → Prop where
  | num (value : Binary32) : IsPlain (.num value)
  | truth : IsPlain .truth
  | null : IsPlain .null

theorem IsPlain.ofBool (b : Bool) : (Expr.ofBool b).IsPlain := by
  cases b with
  | false =>
      exact .null
  | true =>
      exact .truth

theorem IsPlain.isList_eq_false {e : Expr} (h : e.IsPlain) : e.isList = false := by
  cases h <;> rfl

section Layer

variable {scope : ScopeId → ScopeId → Prop} {part : Expr → Expr → Prop} {e e' : Expr}

theorem Layer.kindName_eq (h : Layer scope part e e') : e'.kindName = e.kindName := by
  cases h <;> rfl

theorem Layer.isList_eq (h : Layer scope part e e') : e'.isList = e.isList := by
  cases h <;> rfl

theorem Layer.isTruthy_eq (h : Layer scope part e e') : e'.isTruthy = e.isTruthy := by
  cases h <;> rfl

theorem Layer.numberChars_eq (h : Layer scope part e e') : numberChars e' = numberChars e := by
  cases h <;> rfl

theorem Layer.truthValue_eq (h : Layer scope part e e') (operator : String) :
    truthValue operator e' = truthValue operator e := by
  cases h <;> rfl

theorem Layer.shiftBy_eq (h : Layer scope part e e') (name : String) (amount : Binary32) :
    shiftBy name amount e' = shiftBy name amount e := by
  cases h <;> rfl

end Layer
end Expr

/-!
# Agreements

An agreement relates expressions, scopes and stores in each world.
Computations correspond when they lead from stores that correspond to outcomes
that do.
-/

/--
When two runs correspond.  An excused error on the left ends a comparison, and
any other error must be shared by both sides.
-/
structure Agreement where
  World : Type
  Later : World → World → Prop
  scope : World → ScopeId → ScopeId → Prop
  /-- Scopes that the runs have opened themselves, in which they may bind names. -/
  opened : World → ScopeId → ScopeId → Prop
  expr : World → Expr → Expr → Prop
  store : World → Store → Store → Prop
  excused : EvalError → Prop
  shared : EvalError → Prop
  later_refl (w : World) : Later w w
  later_trans {w₁ w₂ w₃ : World} : Later w₁ w₂ → Later w₂ w₃ → Later w₁ w₃
  scope_later {w w' : World} {a b : ScopeId} : Later w w' → scope w a b → scope w' a b
  opened_later {w w' : World} {a b : ScopeId} : Later w w' → opened w a b → opened w' a b
  expr_later {w w' : World} {e e' : Expr} : Later w w' → expr w e e' → expr w' e e'
  scope_of_opened {w : World} {a b : ScopeId} : opened w a b → scope w a b
  shared_of_ordinary {e : EvalError} : e.IsOrdinary → shared e
  layer {w : World} {e e' : Expr} : expr w e e' → Expr.Layer (scope w) (expr w) e e'
  plain {w : World} {e : Expr} : e.IsPlain → expr w e e
  lookup {w : World} {s s' : Store} {a b : ScopeId} (name : String) (mode : LookupMode) :
    store w s s' → scope w a b → Option.Rel (expr w) (s.lookup a name mode) (s'.lookup b name mode)
  addChild {w : World} {s s' : Store} {a b : ScopeId} : store w s s' → scope w a b →
    ∃ w', Later w w' ∧ store w' (s.addChild a) (s'.addChild b) ∧
      opened w' s.forest.fresh s'.forest.fresh
  binds_eq {w : World} {s s' : Store} {a b : ScopeId} (name : String) :
    store w s s' → opened w a b → s'.forest.binds b name = s.forest.binds a name
  set {w : World} {s s' : Store} {a b : ScopeId} {v v' : Expr} (name : String) :
    store w s s' → opened w a b → expr w v v' →
      ∃ w', Later w w' ∧
        store w' { s with forest := s.forest.set a name v }
          { s' with forest := s'.forest.set b name v' }
  addFunction {w : World} {s s' : Store} {a b : ScopeId} {params params' : List Expr}
    {names : List String} {body body' : List Expr} :
    store w s s' → scope w a b → expr w (.list params) (.list params') →
      parameterNames params = .ok names → expr w (.list body) (.list body') →
        ∃ w', Later w w' ∧ store w' s.addFunction s'.addFunction ∧
          expr w' (.lambda ⟨s.functions, a⟩ names body) (.lambda ⟨s'.functions, b⟩ names body')

namespace Agreement

variable {A : Agreement} {α β γ δ : Type}

/-- Outcomes of two computations that correspond, with results related in a later world. -/
inductive Outcome (A : Agreement) (w : A.World) (r : A.World → α → β → Prop) :
    EStateM.Result EvalError Store α → EStateM.Result EvalError Store β → Prop where
  | ok {w' : A.World} {a : α} {b : β} {s s' : Store} (hlater : A.Later w w')
      (hresult : r w' a b) (hstore : A.store w' s s') : Outcome A w r (.ok a s) (.ok b s')
  | error {w' : A.World} {e : EvalError} {s s' : Store} (hlater : A.Later w w')
      (hshared : A.shared e) (hstore : A.store w' s s') :
      Outcome A w r (.error e s) (.error e s')
  | excused {e : EvalError} {s : Store} {result : EStateM.Result EvalError Store β}
      (h : A.excused e) : Outcome A w r (.error e s) result

def Acts (A : Agreement) (w : A.World) (r : A.World → α → β → Prop)
    (x : EvalM α) (y : EvalM β) : Prop :=
  ∀ s s', A.store w s s' → A.Outcome w r (x s) (y s')

def evaluated (A : Agreement) (w : A.World) (x y : Evaluated) : Prop :=
  A.expr w x.value y.value ∧ A.scope w x.scope y.scope

def Evaluators (A : Agreement) (eval eval' : Evaluator) : Prop :=
  ∀ ⦃w : A.World⦄ ⦃a b : ScopeId⦄ ⦃e e' : Expr⦄ (mode : LookupMode),
    A.scope w a b → A.expr w e e' → A.Acts w A.evaluated (eval a e mode) (eval' b e' mode)

/-!
# Composing computations

What corresponds in a later world does so from the present one.  Results,
errors and compositions of computations that correspond correspond again.
-/

theorem Outcome.mono {w : A.World} {r r' : A.World → α → β → Prop}
    {x : EStateM.Result EvalError Store α} {y : EStateM.Result EvalError Store β}
    (h : A.Outcome w r x y) (himp : ∀ w' a b, A.Later w w' → r w' a b → r' w' a b) :
    A.Outcome w r' x y := by
  cases h with
  | ok hlater hresult hstore =>
      exact .ok hlater (himp _ _ _ hlater hresult) hstore
  | error hlater hshared hstore =>
      exact .error hlater hshared hstore
  | excused h =>
      exact .excused h

theorem Outcome.of_later {w w' : A.World} {r : A.World → α → β → Prop}
    {x : EStateM.Result EvalError Store α} {y : EStateM.Result EvalError Store β}
    (hw : A.Later w w') (h : A.Outcome w' r x y) : A.Outcome w r x y := by
  cases h with
  | ok hlater hresult hstore =>
      exact .ok (A.later_trans hw hlater) hresult hstore
  | error hlater hshared hstore =>
      exact .error (A.later_trans hw hlater) hshared hstore
  | excused h =>
      exact .excused h

namespace Acts

variable {w : A.World}

theorem mono {r r' : A.World → α → β → Prop} {x : EvalM α} {y : EvalM β} (h : A.Acts w r x y)
    (himp : ∀ w' a b, A.Later w w' → r w' a b → r' w' a b) : A.Acts w r' x y := by
  intro s s' hs
  exact (h s s' hs).mono himp

theorem pure {r : A.World → α → β → Prop} {a : α} {b : β} (h : r w a b) :
    A.Acts w r (Pure.pure a) (Pure.pure b) := by
  intro s s' hs
  exact .ok (A.later_refl w) h hs

theorem throw {r : A.World → α → β → Prop} {e : EvalError} (h : e.IsOrdinary) :
    A.Acts w r (MonadExcept.throw e) (MonadExcept.throw e) := by
  intro s s' hs
  exact .error (A.later_refl w) (A.shared_of_ordinary h) hs

theorem bind {r : A.World → α → β → Prop} {r' : A.World → γ → δ → Prop}
    {x : EvalM α} {y : EvalM β} {f : α → EvalM γ} {g : β → EvalM δ}
    (h : A.Acts w r x y)
    (hnext : ∀ w' a b, A.Later w w' → r w' a b → A.Acts w' r' (f a) (g b)) :
    A.Acts w r' (x >>= f) (y >>= g) := by
  intro s s' hs
  have hfirst := h s s' hs
  show A.Outcome w r' (EStateM.bind x f s) (EStateM.bind y g s')
  unfold EStateM.bind
  cases hx : x s with
  | ok a t =>
      rw [hx] at hfirst
      generalize y s' = second at hfirst
      cases hfirst with
      | ok hlater hresult hstore =>
          exact (hnext _ _ _ hlater hresult _ _ hstore).of_later hlater
  | error e t =>
      rw [hx] at hfirst
      generalize y s' = second at hfirst
      cases hfirst with
      | error hlater hshared hstore =>
          exact .error hlater hshared hstore
      | excused h =>
          exact .excused h

theorem and {r : A.World → α → β → Prop} {x : EvalM α} {y : EvalM β} {p : α → Prop} {q : β → Prop}
    (h : A.Acts w r x y) (hx : ∀ s a t, x s = .ok a t → p a)
    (hy : ∀ s b t, y s = .ok b t → q b) :
    A.Acts w (fun w a b => r w a b ∧ p a ∧ q b) x y := by
  intro s s' hs
  have hboth := h s s' hs
  generalize hleft : x s = first at hboth
  generalize hright : y s' = second at hboth
  cases hboth with
  | ok hlater hresult hstore =>
      exact .ok hlater ⟨hresult, hx _ _ _ hleft, hy _ _ _ hright⟩ hstore
  | error hlater hshared hstore =>
      exact .error hlater hshared hstore
  | excused h =>
      exact .excused h

/-!
# Operations on the store

The operations on a store correspond by what an agreement asks for.  A result
that is known on both sides needs no store at all.
-/

theorem lookup {a b : ScopeId} (name : String) (mode : LookupMode) (h : A.scope w a b) :
    A.Acts w (fun w => Option.Rel (A.expr w)) (EvalM.lookup a name mode)
      (EvalM.lookup b name mode) := by
  intro s s' hs
  exact .ok (A.later_refl w) (A.lookup name mode hs h) hs

theorem openScope {a b : ScopeId} (h : A.scope w a b) :
    A.Acts w A.opened (EvalM.openScope a) (EvalM.openScope b) := by
  intro s s' hs
  obtain ⟨w', hlater, hstore, hopened⟩ := A.addChild hs h
  exact .ok hlater hopened hstore

theorem bindName {a b : ScopeId} {v v' : Expr} (name : String) (h : A.opened w a b)
    (hv : A.expr w v v') :
    A.Acts w (fun _ _ _ => True) (EvalM.bindName a name v) (EvalM.bindName b name v') := by
  intro s s' hs
  unfold EvalM.bindName
  rw [A.binds_eq name hs h]
  split
  · exact .error (A.later_refl w) (A.shared_of_ordinary (by simp [EvalError.IsOrdinary])) hs
  · obtain ⟨w', hlater, hstore⟩ := A.set name hs h hv
    exact .ok hlater trivial hstore

theorem newIdentity {a b : ScopeId} {params params' : List Expr} {names : List String}
    {body body' : List Expr} (h : A.scope w a b) (hparams : A.expr w (.list params) (.list params'))
    (hnames : parameterNames params = .ok names)
    (hbody : A.expr w (.list body) (.list body')) :
    A.Acts w (fun w m n => A.expr w (.lambda m names body) (.lambda n names body'))
      (EvalM.newIdentity a) (EvalM.newIdentity b) := by
  intro s s' hs
  obtain ⟨w', hlater, hstore, hlambda⟩ := A.addFunction hs h hparams hnames hbody
  exact .ok hlater hlambda hstore

theorem ofExcept {r : A.World → α → β → Prop} {x : Except EvalError α} {y : Except EvalError β}
    (hok : ∀ a, x = .ok a → ∃ b, y = .ok b ∧ r w a b)
    (herror : ∀ e, x = .error e → y = .error e ∧ e.IsOrdinary) :
    A.Acts w r (EvalM.ofExcept x) (EvalM.ofExcept y) := by
  cases x with
  | ok a =>
      obtain ⟨b, rfl, h⟩ := hok a rfl
      exact Acts.pure h
  | error e =>
      obtain ⟨rfl, h⟩ := herror e rfl
      exact Acts.throw h

end Acts
end Agreement
end ScopeLisp
