import ScopeLisp.Proofs.ClosedStores
import ScopeLisp.Proofs.Evaluation

/-!
# What an evaluation leaves

## One store

Two evaluators are compared on one and the same closed store.  They give the
same outcome, unless the left one runs out of levels where that is excused.

## Growth

In particular an evaluation agrees with itself.  Whatever its outcome is, the
store stays closed, every scope that was there is as it was, and no evaluation
is left in flight.
-/

namespace ScopeLisp

/-!
# Steady stores

In the course of an evaluation the scopes of the base are untouched, and a
number of evaluations is in flight.  The scopes beyond the base are those that
the evaluation has opened.
-/

def EvalM.storeAfter {α : Type} : EStateM.Result EvalError Store α → Store
  | .ok _ s => s
  | .error _ s => s

/--
A closed store in the course of an evaluation: the scopes of the base are
untouched, a number of evaluations is in flight, and there were never more than
the bound.
-/
structure Store.Steady (base : Forest) (depth bound : Nat) (s : Store) : Prop where
  closed : s.Closed
  extend : s.forest.Extends base
  inFlight_eq : s.inFlight = depth
  peak_le : s.peak ≤ bound

namespace Agreement

def steady (base : Forest) (depth bound : Nat) (excused shared : EvalError → Prop)
    (hshared : ∀ e : EvalError, e.IsOrdinary → shared e) : Agreement where
  World := Extent
  Later w w' := w'.Covers w
  scope w a b := b = a ∧ a.Within w
  opened w a b := (b = a ∧ a.Within w) ∧ base.size ≤ a.index
  expr w e e' := e' = e ∧ e.Within w
  store w s s' := s' = s ∧ s.extent = w ∧ s.Steady base depth bound
  excused := excused
  shared := shared
  later_refl w := w.covers_refl
  later_trans h h' := h'.trans h
  scope_later h hab := ⟨hab.1, Nat.lt_of_lt_of_le hab.2 h.1⟩
  opened_later h hab := ⟨⟨hab.1.1, Nat.lt_of_lt_of_le hab.1.2 h.1⟩, hab.2⟩
  expr_later {w w' e e'} h he := ⟨he.1, Expr.Within.mono h e he.2⟩
  scope_of_opened h := h.1
  shared_of_ordinary h := hshared _ h
  layer {w e e'} h := by
    obtain ⟨rfl, he⟩ := h
    cases e' with
    | atom name =>
        exact .atom name
    | str text =>
        exact .str text
    | num value =>
        exact .num value
    | quoted inner =>
        exact .quoted ⟨rfl, he⟩
    | list items =>
        exact .list (List.forall₂_same.mpr fun e hmem => ⟨rfl, Expr.withinAll_iff.mp he e hmem⟩)
    | native identity name routine =>
        cases routine with
        | builtin operation =>
            exact .native identity identity name operation
        | host key =>
            exact he.2.elim
    | lambda identity params body =>
        exact .lambda params ⟨rfl, he.1.2⟩ ⟨rfl, he.2⟩
    | null =>
        exact .null
  plain h := by
    cases h <;> exact ⟨rfl, trivial⟩
  lookup {w s s' a b} name mode hs hab := by
    obtain ⟨rfl, rfl, hs⟩ := hs
    obtain ⟨rfl, _⟩ := hab
    cases hfound : s'.lookup b name mode with
    | none =>
        exact .none
    | some value =>
        exact .some ⟨rfl, hs.closed.lookup_within hfound⟩
  addChild {w s s' a b} hs hab := by
    obtain ⟨rfl, rfl, hs⟩ := hs
    obtain ⟨rfl, hb⟩ := hab
    refine ⟨(s'.addChild b).extent, ?_, ⟨rfl, rfl, ?_⟩, ⟨rfl, ?_⟩, hs.extend.1⟩
    · simp [Extent.Covers, Store.extent, Store.addChild]
    · exact ⟨hs.closed.addChild hb, hs.extend.addChild hb, hs.inFlight_eq, hs.peak_le⟩
    · simp [ScopeId.Within, Store.extent, Store.addChild, Forest.fresh]
  binds_eq {w s s' a b} name hs hab := by
    rw [hs.1, hab.1.1]
  set {w s s' a b v v'} name hs hab hv := by
    obtain ⟨rfl, rfl, hs⟩ := hs
    obtain ⟨⟨rfl, hb⟩, hbase⟩ := hab
    obtain ⟨rfl, hv⟩ := hv
    refine ⟨s'.extent, Extent.covers_refl _, rfl, by simp [Store.extent], ?_⟩
    exact ⟨hs.closed.set b name hv, hs.extend.set hbase name v', hs.inFlight_eq, hs.peak_le⟩
  addFunction {w s s' a b params params' names body body'} hs hab _ _ hbody := by
    obtain ⟨rfl, rfl, hs⟩ := hs
    obtain ⟨rfl, hb⟩ := hab
    obtain ⟨hbody, hwithin⟩ := hbody
    cases hbody
    refine ⟨s'.addFunction.extent, s'.covers_addFunction, ⟨rfl, rfl, ?_⟩, rfl, ?_, ?_⟩
    · exact ⟨hs.closed.addFunction, hs.extend, hs.inFlight_eq, hs.peak_le⟩
    · exact ⟨Nat.lt_succ_self _, hb⟩
    · exact Expr.WithinAll.mono s'.covers_addFunction body hwithin

section Steady

variable {base : Forest} {depth bound : Nat} {excused shared : EvalError → Prop}
  {hshared : ∀ e : EvalError, e.IsOrdinary → shared e}

theorem steady_counted {w : Extent} {x y : EvalM Evaluated} (hroom : depth < bound)
    (h : (steady base (depth + 1) bound excused shared hshared).Acts w
      (steady base (depth + 1) bound excused shared hshared).evaluated x y) :
    (steady base depth bound excused shared hshared).Acts w
      (steady base depth bound excused shared hshared).evaluated
      (EvalM.counted x) (EvalM.counted y) := by
  rintro _ s ⟨rfl, rfl, hs⟩
  have henter : s.enter.Steady base (depth + 1) bound := by
    refine ⟨hs.closed, hs.extend, ?_, ?_⟩
    · show s.inFlight + 1 = depth + 1
      rw [hs.inFlight_eq]
    · show max s.peak (s.inFlight + 1) ≤ bound
      have hpeak := hs.peak_le
      have hdepth := hs.inFlight_eq
      omega
  have hleave : ∀ {t : Store}, t.Steady base (depth + 1) bound →
      t.leave.Steady base depth bound := by
    intro t ht
    refine ⟨ht.closed, ht.extend, ?_, ht.peak_le⟩
    show t.inFlight - 1 = depth
    rw [ht.inFlight_eq]
    rfl
  have hrun := h s.enter s.enter ⟨rfl, rfl, henter⟩
  unfold EvalM.counted
  generalize x s.enter = first at hrun
  generalize y s.enter = second at hrun
  cases hrun with
  | ok hlater hresult hstore =>
      obtain ⟨rfl, rfl, ht⟩ := hstore
      exact .ok hlater hresult ⟨rfl, rfl, hleave ht⟩
  | error hlater hshared' hstore =>
      obtain ⟨rfl, rfl, ht⟩ := hstore
      exact .error hlater hshared' ⟨rfl, rfl, hleave ht⟩
  | excused h =>
      exact .excused h

/--
Evaluation with fewer levels on the left.  When the left side runs out of
levels, this is excused or happens on the right side as well.
-/
theorem steady_evalAt {i i' : Interpreter} (hi : i.Ample) (hi' : i'.Ample) {levels levels' : Nat}
    (hlevels : levels ≤ levels') (hroom : depth + levels ≤ bound)
    (hexhausted : excused (.stackExhausted i.limit) ∨
      shared (.stackExhausted i.limit) ∧ levels' = levels ∧ i'.limit = i.limit) :
    (steady base depth bound excused shared hshared).Evaluators
      (i.evalAt levels) (i'.evalAt levels') := by
  induction levels generalizing depth levels' with
  | zero =>
      intro w a b e e' mode hscope he s s' hs
      obtain hexcused | ⟨hboth, rfl, hlimit⟩ := hexhausted
      · exact .excused hexcused
      · rw [Interpreter.evalAt_zero, Interpreter.evalAt_zero, hlimit]
        exact .error (Agreement.later_refl _ w) hboth hs
  | succ levels ih =>
      obtain ⟨levels', rfl⟩ : ∃ n, levels' = n + 1 := ⟨levels' - 1, by omega⟩
      intro w a b e e' mode hscope he
      rw [Interpreter.evalAt_succ, Interpreter.evalAt_succ]
      apply steady_counted (by omega)
      apply evalWith (A := steady base (depth + 1) bound excused shared hshared) _
        (i.evalAt_onlyQuotes levels) (i'.evalAt_onlyQuotes levels') hi hi' mode hscope he
      apply ih (by omega) (by omega)
      obtain hexcused | ⟨hboth, heq, hlimit⟩ := hexhausted
      · exact .inl hexcused
      · exact .inr ⟨hboth, by omega, hlimit⟩

/-!
# Outcomes on one store

Computations that correspond on one store have the same outcome unless they are
excused.  Under one limit nothing is excused; under two, the left one may run
into its limit.
-/

theorem steady_eq_or_excused {w : Extent} {x y : EStateM.Result EvalError Store Evaluated}
    (h : (steady base depth bound excused shared hshared).Outcome w
      (steady base depth bound excused shared hshared).evaluated x y) :
    y = x ∨ ∃ e t, x = .error e t ∧ excused e := by
  cases h with
  | ok hlater hresult hstore =>
      rename_i a b s s'
      obtain ⟨value, scope⟩ := a
      obtain ⟨value', scope'⟩ := b
      obtain ⟨⟨rfl, _⟩, rfl, _⟩ := hresult
      obtain ⟨rfl, _, _⟩ := hstore
      exact .inl rfl
  | error hlater hshared' hstore =>
      obtain ⟨rfl, _, _⟩ := hstore
      exact .inl rfl
  | excused h =>
      exact .inr ⟨_, _, rfl, h⟩

end Steady
end Agreement

/-- The errors that evaluation under a limit can end with. -/
def EvalError.Genuine (limit : Nat) (e : EvalError) : Prop :=
  e ≠ .unsettled ∧ ∀ n, e = .stackExhausted n → n = limit

theorem EvalError.IsOrdinary.genuine {e : EvalError} (h : e.IsOrdinary) (limit : Nat) :
    e.Genuine limit :=
  ⟨h.1, fun n hn => (h.2 n hn).elim⟩

namespace Agreement

abbrev strict (base : Forest) (depth bound limit : Nat) : Agreement :=
  steady base depth bound (fun _ => False) (EvalError.Genuine limit) (fun _ h => h.genuine limit)

abbrev lenient (base : Forest) (depth bound limit : Nat) : Agreement :=
  steady base depth bound (fun e => e = .stackExhausted limit) EvalError.IsOrdinary (fun _ h => h)

end Agreement

/-!
# Stores that grow

Evaluation keeps a store closed and adds scopes and functions to it.  Names may
be bound in scopes that are new.
-/

/-- The stores that evaluation makes of a store: closed, with more scopes and functions. -/
structure Store.GrowsTo (s t : Store) : Prop where
  closed : t.Closed
  extend : t.forest.Extends s.forest
  covers : t.extent.Covers s.extent
  inFlight_eq : t.inFlight = s.inFlight

namespace Store

theorem Closed.growsTo_self {s : Store} (h : s.Closed) : s.GrowsTo s :=
  ⟨h, s.forest.extends_refl, s.extent.covers_refl, rfl⟩

theorem Closed.steady {s : Store} (h : s.Closed) {bound : Nat} (hpeak : s.peak ≤ bound) :
    s.Steady s.forest s.inFlight bound :=
  ⟨h, s.forest.extends_refl, rfl, hpeak⟩

theorem GrowsTo.trans {s t u : Store} (hst : s.GrowsTo t) (htu : t.GrowsTo u) : s.GrowsTo u where
  closed := htu.closed
  extend := htu.extend.trans hst.extend
  covers := htu.covers.trans hst.covers
  inFlight_eq := htu.inFlight_eq.trans hst.inFlight_eq

theorem GrowsTo.addChild {s t : Store} (h : s.GrowsTo t) {parent : ScopeId}
    (hparent : parent.Within t.extent) : s.GrowsTo (t.addChild parent) where
  closed := h.closed.addChild hparent
  extend := h.extend.addChild hparent
  covers := by
    have hone : (t.addChild parent).extent.Covers t.extent := by
      simp [Extent.Covers, extent, Store.addChild]
    exact hone.trans h.covers
  inFlight_eq := h.inFlight_eq

theorem GrowsTo.set {s t : Store} (h : s.GrowsTo t) {id : ScopeId} (hid : s.forest.size ≤ id.index)
    (name : String) {value : Expr} (hvalue : value.Within t.extent) :
    s.GrowsTo { t with forest := t.forest.set id name value } where
  closed := h.closed.set id name hvalue
  extend := h.extend.set hid name value
  covers := by
    have hsame : extent { t with forest := t.forest.set id name value } = t.extent := by
      simp [extent]
    rw [hsame]
    exact h.covers
  inFlight_eq := h.inFlight_eq

end Store

namespace Agreement

/-!
# Evaluation grows the store

A run beside itself says how the store grows, also when the run fails.
-/

theorem strict_evalAt {i : Interpreter} (hi : i.Ample) {base : Forest} {depth bound levels : Nat}
    (hroom : depth + levels ≤ bound) :
    (strict base depth bound i.limit).Evaluators (i.evalAt levels) (i.evalAt levels) := by
  have hgenuine : EvalError.Genuine i.limit (.stackExhausted i.limit) := by
    simp [EvalError.Genuine]
  exact steady_evalAt hi hi (Nat.le_refl _) hroom (.inr ⟨hgenuine, rfl, rfl⟩)

theorem Outcome.growsTo {α β : Type} {s : Store} {bound limit : Nat} {r : Extent → α → β → Prop}
    {x : EStateM.Result EvalError Store α} {y : EStateM.Result EvalError Store β}
    (h : (strict s.forest s.inFlight bound limit).Outcome s.extent r x y) :
    s.GrowsTo (EvalM.storeAfter x) ∧ (EvalM.storeAfter x).peak ≤ bound := by
  cases h with
  | ok hlater hresult hstore =>
      obtain ⟨_, rfl, ht⟩ := hstore
      exact ⟨⟨ht.closed, ht.extend, hlater, ht.inFlight_eq⟩, ht.peak_le⟩
  | error hlater hshared hstore =>
      obtain ⟨_, rfl, ht⟩ := hstore
      exact ⟨⟨ht.closed, ht.extend, hlater, ht.inFlight_eq⟩, ht.peak_le⟩
  | excused h =>
      exact h.elim

end Agreement

namespace Interpreter

variable {i : Interpreter} {s t : Store} {scope : ScopeId} {e : Expr}

theorem evalAt_outcome (hi : i.Ample) (hs : s.Closed) (hscope : scope.Within s.extent)
    (he : e.Within s.extent) (levels : Nat) (mode : LookupMode) :
    let A := Agreement.strict s.forest s.inFlight (max s.peak (s.inFlight + levels)) i.limit
    A.Outcome s.extent A.evaluated (i.evalAt levels scope e mode s)
      (i.evalAt levels scope e mode s) :=
  Agreement.strict_evalAt hi (Nat.le_max_right ..) mode ⟨rfl, hscope⟩ ⟨rfl, he⟩ s s
    ⟨rfl, rfl, hs.steady (Nat.le_max_left ..)⟩

/-- The store grows, whatever the outcome is, and no more levels are used than there are. -/
theorem evalAt_growsTo (hi : i.Ample) (hs : s.Closed) (hscope : scope.Within s.extent)
    (he : e.Within s.extent) (levels : Nat) (mode : LookupMode) :
    s.GrowsTo (EvalM.storeAfter (i.evalAt levels scope e mode s)) ∧
      (EvalM.storeAfter (i.evalAt levels scope e mode s)).peak ≤
        max s.peak (s.inFlight + levels) :=
  (evalAt_outcome hi hs hscope he levels mode).growsTo

theorem evalAt_ok_within (hi : i.Ample) (hs : s.Closed) (hscope : scope.Within s.extent)
    (he : e.Within s.extent) {levels : Nat} {mode : LookupMode} {result : Evaluated}
    (h : i.evalAt levels scope e mode s = .ok result t) :
    result.value.Within t.extent ∧ result.scope.Within t.extent := by
  have houtcome := evalAt_outcome hi hs hscope he levels mode
  rw [h] at houtcome
  cases houtcome with
  | ok hlater hresult hstore =>
      obtain ⟨_, rfl, _⟩ := hstore
      exact ⟨hresult.1.2, hresult.2.2⟩

theorem evalAt_error_genuine (hi : i.Ample) (hs : s.Closed) (hscope : scope.Within s.extent)
    (he : e.Within s.extent) {levels : Nat} {mode : LookupMode} {error : EvalError}
    (h : i.evalAt levels scope e mode s = .error error t) : error.Genuine i.limit := by
  have houtcome := evalAt_outcome hi hs hscope he levels mode
  rw [h] at houtcome
  cases houtcome with
  | error hlater hshared hstore =>
      exact hshared
  | excused h =>
      exact h.elim

end Interpreter
end ScopeLisp
