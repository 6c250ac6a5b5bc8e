import ScopeLisp.Proofs.Enclosure
import ScopeLisp.Proofs.Independence
import ScopeLisp.Proofs.Termination

/-!
# Operators on truth values

## Connectives

A connective goes on over arguments with one truth value and stops at the first
with the other one.  Conjunction and disjunction differ in which is which.

## Negation

The negation of a connective evaluates the same arguments, equally deep, as the
other connective does on their negations.  Each side counts its evaluations in
its own order, and yet the stores are the same from argument to argument.
-/

namespace ScopeLisp

/-!
# Operations on truth values

Two operations act alike when they evaluate the same of their arguments and
have the same outcome.  A type mismatch names the operator that noticed it, so
it may be reported by another one.
-/

def Builtin.applied (operation : Builtin) (args : List Expr) : Expr :=
  .list (.atom operation.name :: args)

def Store.Resolves (s : Store) (scope : ScopeId) (operation : Builtin) : Prop :=
  ∃ identity label,
    s.lookup scope operation.name .nearest = some (.native identity label (.builtin operation))

/--
Outcomes that are the same down to the store, except that a type mismatch may be
reported by another operator.
-/
inductive EvalM.SameButOperator (left right : String) :
    EStateM.Result EvalError Store Evaluated → EStateM.Result EvalError Store Evaluated → Prop where
  | ok (result : Evaluated) (t : Store) : SameButOperator left right (.ok result t) (.ok result t)
  | error (error : EvalError) (t : Store) :
      SameButOperator left right (.error error t) (.error error t)
  | mismatch (expected got : String) (t : Store) :
      SameButOperator left right (.error (.typeMismatch left expected got) t)
        (.error (.typeMismatch right expected got) t)

/--
An operation that evaluates the first `count` of its arguments.  In place of each
of them an expression that fails is noticed, and in place of the others anything
may stand.
-/
structure EvaluatesFirst (count : Nat) (fails : Expr → EvalError → Prop)
    (run : List Expr → EStateM.Result EvalError Store Evaluated) (args : List Expr) : Prop where
  count_le : count ≤ args.length
  noticed {n : Nat} {e : Expr} {error : EvalError} (rest : List Expr) : n < count →
    fails e error → ∃ t, run (args.take n ++ e :: rest) = .error error t
  ignored (rest : List Expr) : rest.length = args.length - count →
    run (args.take count ++ rest) = run args

/-!
# Counting

There were never fewer evaluations in flight at one time than there are now.
So an evaluation inside a counted one leaves a store that can be left and
entered again.
-/

namespace Store

theorem GrowsTo.lookup_eq {s t : Store} (h : s.GrowsTo t) (hs : s.Closed) {scope : ScopeId}
    (hscope : scope.Within s.extent) (name : String) (mode : LookupMode) :
    t.lookup scope name mode = s.lookup scope name mode := by
  have hfixes := Renaming.shift_fixes s.extent t.extent
  have hlookup := (h.renamed hs).toMatches.lookup_eq scope name mode
  rw [hfixes.1 scope hscope] at hlookup
  rw [hlookup]
  cases hfound : s.lookup scope name mode with
  | none =>
      rfl
  | some value =>
      exact congrArg some (hfixes.expr value (hs.lookup_within hfound))

theorem leave_enter {t : Store} (hpos : 0 < t.inFlight) (hpeak : t.inFlight ≤ t.peak) :
    t.leave.enter = t := by
  rcases t with ⟨forest, functions, inFlight, peak⟩
  have hcount : inFlight - 1 + 1 = inFlight := Nat.sub_add_cancel hpos
  simp only [enter, leave, hcount, Nat.max_eq_left hpeak]

end Store

def Invariant.countedAtMost : Invariant where
  holds s := s.inFlight ≤ s.peak
  opened _ := True
  addChild _ h := ⟨h, trivial⟩
  set _ _ h _ := h
  addFunction h := h
  enter _ := Nat.le_max_right ..
  leave h := Nat.le_trans (Nat.sub_le ..) h

namespace Interpreter

variable {i : Interpreter} {limit : Nat} {s : Store} {scope : ScopeId}

theorem leave_enter_of_evalAt (hs : s.enter.Closed) (hscope : scope.Within s.extent) {e : Expr}
    (he : e.Within s.extent) {levels : Nat} {mode : LookupMode} {x : Evaluated} {t : Store}
    (h : (limited limit).evalAt levels scope e mode s.enter = .ok x t) :
    s.enter.GrowsTo t ∧ t.leave.enter = t := by
  have hgrows := (evalAt_growsTo (limited_ample limit) hs hscope he levels mode).1
  have hacts := Invariant.evalAt (I := .countedAtMost) (limited_calls _ limit) levels scope e mode
  have hpeak := (hacts s.enter (Nat.le_max_right ..)).storeAfter
  rw [h] at hgrows hpeak
  have hcount : t.inFlight = s.inFlight + 1 := hgrows.inFlight_eq
  refine ⟨hgrows, Store.leave_enter ?_ hpeak⟩
  rw [hcount]
  exact Nat.succ_pos _

theorem evalAt_applied (hi : i.Ample) {operation : Builtin} (hname : s.Resolves scope operation)
    (hstays : operation.isLeading = false) (args : List Expr) (levels : Nat) (mode : LookupMode) :
    i.evalAt (levels + 1) scope (operation.applied args) mode s =
      EvalM.ended (operation.body (i.evalAt levels) scope args s.enter) := by
  rcases hname with ⟨identity, label, hfound⟩
  have hinvoke : i.invoke (i.evalAt levels) scope (.atom operation.name :: args) s.enter =
      operation.body (i.evalAt levels) scope args s.enter := by
    have hlookup : EvalM.lookup scope operation.name .nearest s.enter =
        .ok (some (.native identity label (.builtin operation))) s.enter :=
      congrArg (EStateM.Result.ok · s.enter) hfound
    exact EvalM.bind_of_eq_ok hlookup _
  have hresult : ∀ result t, i.invoke (i.evalAt levels) scope (.atom operation.name :: args)
      s.enter = .ok result t → result.value.isList = false := by
    intro result t hrun
    exact (Builtin.plain_of_body hstays (hinvoke.symm.trans hrun)).1.isList_eq_false
  rw [Builtin.applied, evalAt_invoke hi hresult, EvalM.counted_eq_ended, hinvoke]

end Interpreter

/-!
# Negation

A value has a truth value for every operator or for none.
-/

theorem truthValue_ofBool (operator : String) (b : Bool) :
    truthValue operator (.ofBool b) = .ok b := by
  cases b <;> rfl

theorem truthValue_cases (value : Expr) :
    (∃ b, ∀ operator, truthValue operator value = .ok b) ∨
      ∀ operator, truthValue operator value =
        .error (.typeMismatch operator "boolean" value.kindName) := by
  cases value with
  | null =>
      exact .inl ⟨false, fun _ => rfl⟩
  | atom name =>
      exact .inl ⟨true, fun _ => rfl⟩
  | _ =>
      exact .inr fun _ => rfl

def negated (scope : ScopeId) :
    EStateM.Result EvalError Store Evaluated → EStateM.Result EvalError Store Evaluated
  | .ok result t =>
      match negate "not" result.value with
      | .ok value => .ok ⟨value, scope⟩ t.leave
      | .error error => .error error t.leave
  | .error error t => .error error t.leave

theorem negated_of_ok {value : Expr} {b : Bool} (h : truthValue "not" value = .ok b)
    (scope inner : ScopeId) (t : Store) :
    negated scope (.ok ⟨value, inner⟩ t) = .ok ⟨.ofBool !b, scope⟩ t.leave := by
  simp only [negated, negate, h]
  rfl

theorem negated_of_error {value : Expr} {error : EvalError}
    (h : truthValue "not" value = .error error) (scope inner : ScopeId) (t : Store) :
    negated scope (.ok ⟨value, inner⟩ t) = .error error t.leave := by
  simp only [negated, negate, h]
  rfl

theorem Interpreter.evalAt_negation {i : Interpreter} (hi : i.Ample) {s : Store} {scope : ScopeId}
    (hnot : s.Resolves scope .negation) (e : Expr) (levels : Nat) (mode : LookupMode) :
    i.evalAt (levels + 1) scope (Builtin.applied .negation [e]) mode s =
      negated scope (i.evalAt levels scope e .nearest s.enter) := by
  rw [evalAt_applied hi hnot rfl]
  show EvalM.ended ((Rule.single (negate "not")).sweep (i.evalAt levels) scope () [e] s.enter) = _
  rw [Rule.sweep_cons, show (Rule.single (negate "not")).mode = .nearest from rfl]
  cases harg : i.evalAt levels scope e .nearest s.enter with
  | error error t =>
      rw [EvalM.bind_of_eq_error harg]
      rfl
  | ok result t =>
      rw [EvalM.bind_of_eq_ok harg]
      simp only [Rule.single, negated]
      cases negate "not" result.value <;> rfl

/-!
# Connectives

Once there was an argument, the state of the rule says no more.
-/

/--
A builtin that goes on over arguments with one truth value and stops at the first
with the other one.  Once there was an argument the state of its rule says no more.
-/
structure Connective where
  operation : Builtin
  stop : Bool
  State : Type
  rule : Rule State
  start : State
  seen : State
  mode_eq : rule.mode = .nearest
  step_eq (state : State) (value : Expr) : rule.step state value =
    match truthValue operation.name value with
    | .ok b => if b = stop then .stop (.ofBool stop) else .next seen
    | .error error => .fail error
  finish_eq : rule.finish seen = .ok (.ofBool !stop)
  body_eq (eval : Evaluator) (scope : ScopeId) (args : List Expr) :
    operation.body eval scope args = rule.sweep eval scope start args
  isLeading_eq : operation.isLeading = false

namespace Connective

def conjunction : Connective where
  operation := .conjunction
  stop := false
  State := Bool
  rule := .all "and"
  start := false
  seen := true
  mode_eq := rfl
  step_eq _ value := by
    simp only [Rule.all, Builtin.name]
    rcases truthValue "and" value with _ | _ | _ <;> rfl
  finish_eq := rfl
  body_eq _ _ _ := rfl
  isLeading_eq := rfl

def disjunction : Connective where
  operation := .disjunction
  stop := true
  State := Unit
  rule := .any "or"
  start := ()
  seen := ()
  mode_eq := rfl
  step_eq _ value := by
    simp only [Rule.any, Builtin.name]
    rcases truthValue "or" value with _ | _ | _ <;> rfl
  finish_eq := rfl
  body_eq _ _ _ := rfl
  isLeading_eq := rfl

variable (c : Connective)

/-!
# What a connective gives

Where there is an argument, it does not matter in which state the rule begins.
-/

def outcome (eval : Evaluator) (scope : ScopeId) (args : List Expr) :
    EvalM Evaluated :=
  c.rule.sweep eval scope c.seen args

theorem body_eq_outcome (eval : Evaluator) (scope : ScopeId) {args : List Expr}
    (hargs : args ≠ []) : c.operation.body eval scope args = c.outcome eval scope args := by
  cases args with
  | nil =>
      exact absurd rfl hargs
  | cons arg rest =>
      simp only [c.body_eq, outcome, Rule.sweep_cons, c.step_eq]

theorem outcome_nil (eval : Evaluator) (scope : ScopeId) (s : Store) :
    c.outcome eval scope [] s = .ok ⟨.ofBool !c.stop, scope⟩ s := by
  rw [outcome, Rule.sweep_nil, c.finish_eq]
  rfl

variable {eval : Evaluator} {scope : ScopeId} {arg : Expr} {s t : Store} {x : Evaluated}

theorem outcome_of_error {error : EvalError} (harg : eval scope arg .nearest s = .error error t)
    (rest : List Expr) : c.outcome eval scope (arg :: rest) s = .error error t := by
  rw [outcome, Rule.sweep_cons, c.mode_eq, EvalM.bind_of_eq_error harg]

theorem outcome_of_mismatch (harg : eval scope arg .nearest s = .ok x t) {error : EvalError}
    (hvalue : truthValue c.operation.name x.value = .error error) (rest : List Expr) :
    c.outcome eval scope (arg :: rest) s = .error error t := by
  rw [outcome, Rule.sweep_cons, c.mode_eq, EvalM.bind_of_eq_ok harg, c.step_eq, hvalue]
  rfl

theorem outcome_of_stop (harg : eval scope arg .nearest s = .ok x t)
    (hvalue : truthValue c.operation.name x.value = .ok c.stop) (rest : List Expr) :
    c.outcome eval scope (arg :: rest) s = .ok ⟨.ofBool c.stop, scope⟩ t := by
  rw [outcome, Rule.sweep_cons, c.mode_eq, EvalM.bind_of_eq_ok harg, c.step_eq, hvalue]
  simp only [if_true]
  rfl

theorem outcome_of_next (harg : eval scope arg .nearest s = .ok x t)
    (hvalue : truthValue c.operation.name x.value = .ok !c.stop) (rest : List Expr) :
    c.outcome eval scope (arg :: rest) s = c.outcome eval scope rest t := by
  have hne : ¬ (!c.stop) = c.stop := by
    cases c.stop <;> exact Bool.noConfusion
  rw [outcome, Rule.sweep_cons, c.mode_eq, EvalM.bind_of_eq_ok harg, c.step_eq, hvalue]
  simp only [hne, if_false]
  rfl

end Connective

/-!
# Two sides

On the left is the negation of a connective, on the right another connective on the
negations of its arguments.  On the left two evaluations have begun when the first
argument is evaluated, on the right one has begun and the second is that of a
negation, so it ends and begins again between two arguments.
-/

def negations (args : List Expr) : List Expr :=
  args.map fun arg => Builtin.applied .negation [arg]

theorem negations_ne_nil {args : List Expr} (h : args ≠ []) : negations args ≠ [] := by
  simpa [negations] using h

inductive Negates (operator : String) (scope : ScopeId) :
    EStateM.Result EvalError Store Evaluated × EStateM.Result EvalError Store Evaluated → Prop where
  | ok (b : Bool) (t : Store) :
      Negates operator scope (.ok ⟨.ofBool b, scope⟩ t, .ok ⟨.ofBool !b, scope⟩ t.leave)
  | error (error : EvalError) (t : Store) :
      Negates operator scope (.error error t, .error error t.leave)
  | mismatch (got : String) (t : Store) :
      Negates operator scope (.error (.typeMismatch operator "boolean" got) t,
        .error (.typeMismatch "not" "boolean" got) t.leave)

theorem Negates.sameButOperator {operator : String} {scope : ScopeId}
    {sides : EStateM.Result EvalError Store Evaluated × EStateM.Result EvalError Store Evaluated}
    (h : Negates operator scope sides) :
    EvalM.SameButOperator operator "not" (negated scope (EvalM.ended sides.1))
      (EvalM.ended sides.2) := by
  cases h with
  | ok b t =>
      simp only [EvalM.ended, negated_of_ok (truthValue_ofBool "not" b)]
      exact .ok _ _
  | error error t =>
      exact .error error _
  | mismatch got t =>
      exact .mismatch "boolean" got _

namespace Connective

variable (c d : Connective) {limit levels : Nat} {base u : Store} {scope : ScopeId}

/-!
# The course of both sides

One argument takes both sides on, with stores that differ as before, or decides
both of them, whatever stands behind it.
-/

def sides (limit levels : Nat) (scope : ScopeId) (args : List Expr) (u : Store) :
    EStateM.Result EvalError Store Evaluated × EStateM.Result EvalError Store Evaluated :=
  (c.outcome ((Interpreter.limited limit).evalAt levels) scope args u.enter,
    d.outcome ((Interpreter.limited limit).evalAt (levels + 1)) scope (negations args) u)

/--
The course of both sides: they evaluate a number of arguments, one after the other, and
are then decided, whatever the others are.
-/
structure Course (limit levels : Nat) (scope : ScopeId) (base u : Store) (args : List Expr)
    (count : Nat) (both : EStateM.Result EvalError Store Evaluated ×
      EStateM.Result EvalError Store Evaluated) : Prop where
  count_le : count ≤ args.length
  reached {n : Nat} : n < count → ∃ v, base.GrowsTo v.enter ∧ ∀ rest,
    sides c d limit levels scope (args.take n ++ rest) u = sides c d limit levels scope rest v
  decided {rest : List Expr} : rest.length = args.length - count →
    sides c d limit levels scope (args.take count ++ rest) u = both

theorem evalAt_negation_of_growsTo (hbase : base.Closed) (hscope : scope.Within base.extent)
    (hnot : base.Resolves scope .negation) (hu : base.GrowsTo u.enter) (e : Expr) :
    (Interpreter.limited limit).evalAt (levels + 1) scope (Builtin.applied .negation [e])
        .nearest u =
      negated scope ((Interpreter.limited limit).evalAt levels scope e .nearest u.enter) := by
  apply Interpreter.evalAt_negation (Interpreter.limited_ample limit)
  rcases hnot with ⟨identity, label, hfound⟩
  exact ⟨identity, label, (hu.lookup_eq hbase hscope _ _).trans hfound⟩

section

variable {c d} (hdual : d.stop = !c.stop) (hbase : base.Closed) (hscope : scope.Within base.extent)
  (hnot : base.Resolves scope .negation) (hu : base.GrowsTo u.enter)
include hdual hbase hscope hnot hu

/--
One argument on both sides.  Either both go on, with stores that differ as before, or
both are decided, whatever stands behind.
-/
theorem sides_cons (limit levels : Nat) {arg : Expr} (harg : arg.Within base.extent) :
    (∃ v, base.GrowsTo v.enter ∧ v.enter.leave = v ∧
      ∀ rest, sides c d limit levels scope (arg :: rest) u = sides c d limit levels scope rest v) ∨
    ∃ both, Negates c.operation.name scope both ∧
      ∀ rest, sides c d limit levels scope (arg :: rest) u = both := by
  have hscope' : scope.Within u.enter.extent := Nat.lt_of_lt_of_le hscope hu.covers.1
  have harg' : arg.Within u.enter.extent := Expr.Within.mono hu.covers arg harg
  have hnegation := @evalAt_negation_of_growsTo limit levels _ _ _ hbase hscope hnot hu arg
  cases heval : (Interpreter.limited limit).evalAt levels scope arg .nearest u.enter with
  | error error t =>
      rw [heval] at hnegation
      refine .inr ⟨_, .error error t, ?_⟩
      intro rest
      exact Prod.ext (c.outcome_of_error heval rest) (d.outcome_of_error hnegation _)
  | ok x t =>
      rw [heval] at hnegation
      rcases x with ⟨value, inner⟩
      rcases truthValue_cases value with ⟨b, htruth⟩ | hmismatch
      · rw [negated_of_ok (htruth "not")] at hnegation
        have hright := truthValue_ofBool d.operation.name !b
        by_cases hb : b = c.stop
        · subst hb
          rw [← hdual] at hnegation hright
          refine .inr ⟨_, .ok c.stop t, ?_⟩
          intro rest
          rw [← hdual]
          exact Prod.ext (c.outcome_of_stop heval (htruth _) rest)
            (d.outcome_of_stop hnegation hright _)
        · rw [Bool.eq_not_of_ne hb, ← hdual] at hnegation hright
          rcases Interpreter.leave_enter_of_evalAt hu.closed hscope' harg' heval with
            ⟨hgrows, henter⟩
          have hv : t.leave.enter = t := henter
          refine .inl ⟨t.leave, ?_, ?_, ?_⟩
          · rw [hv]
            exact hu.trans hgrows
          · rw [hv]
          · intro rest
            rw [sides, sides, hv]
            exact Prod.ext (c.outcome_of_next heval (Bool.eq_not_of_ne hb ▸ htruth _) rest)
              (d.outcome_of_next hnegation hright _)
      · rw [negated_of_error (hmismatch "not")] at hnegation
        refine .inr ⟨_, .mismatch value.kindName t, ?_⟩
        intro rest
        exact Prod.ext (c.outcome_of_mismatch heval (hmismatch _) rest)
          (d.outcome_of_error hnegation _)

theorem exists_course (limit levels : Nat) {args : List Expr}
    (hargs : Expr.WithinAll base.extent args) (hlast : args = [] → u.enter.leave = u) :
    ∃ count both, Negates c.operation.name scope both ∧
      Course c d limit levels scope base u args count both := by
  induction args generalizing u with
  | nil =>
      have hleft := c.outcome_nil ((Interpreter.limited limit).evalAt levels) scope u.enter
      have hright := d.outcome_nil ((Interpreter.limited limit).evalAt (levels + 1)) scope u
      rw [hdual] at hright
      refine ⟨0, _, .ok (!c.stop) u.enter, Nat.le_refl _, ?_, ?_⟩
      · intro n hn
        cases hn
      · intro rest hrest
        cases List.eq_nil_of_length_eq_zero hrest
        rw [hlast rfl]
        exact Prod.ext hleft hright
  | cons arg args ih =>
      rcases sides_cons hdual hbase hscope hnot hu limit levels hargs.1 with
        ⟨v, hv, hleave, hnext⟩ | ⟨both, hboth, hdecided⟩
      · rcases ih hv hargs.2 (fun _ => hleave) with ⟨count, both, hboth, hcourse⟩
        refine ⟨count + 1, both, hboth, Nat.succ_le_succ hcourse.count_le, ?_, ?_⟩
        · intro n hn
          cases n with
          | zero =>
              exact ⟨u, hu, fun rest => rfl⟩
          | succ n =>
              rcases hcourse.reached (Nat.lt_of_succ_lt_succ hn) with ⟨w, hw, hrest⟩
              exact ⟨w, hw, fun rest => (hnext _).trans (hrest rest)⟩
        · intro rest hrest
          exact (hnext _).trans (hcourse.decided (by simpa using hrest))
      · refine ⟨1, both, hboth, Nat.succ_le_succ (Nat.zero_le _), ?_, ?_⟩
        · intro n hn
          cases Nat.lt_one_iff.mp hn
          exact ⟨u, hu, fun rest => rfl⟩
        · intro rest _
          exact hdecided rest

end

theorem sides_of_error (hbase : base.Closed) (hscope : scope.Within base.extent)
    (hnot : base.Resolves scope .negation) (hu : base.GrowsTo u.enter) {e : Expr}
    (he : e.Within base.extent) {error : EvalError} {t : Store}
    (h : (Interpreter.limited limit).evalAt levels scope e .nearest base = .error error t)
    (rest : List Expr) :
    ∃ v, sides c d limit levels scope (e :: rest) u = (.error error v, .error error v.leave) := by
  rcases Interpreter.evalAt_again_error (Interpreter.limited_ample limit) hbase hu hscope he h with
    ⟨v, heval, _⟩
  have hnegation := @evalAt_negation_of_growsTo limit levels _ _ _ hbase hscope hnot hu e
  rw [heval] at hnegation
  exact ⟨v, Prod.ext (c.outcome_of_error heval rest) (d.outcome_of_error hnegation _)⟩

variable {c d} {s : Store} {args : List Expr}

/-!
# From the limit to both sides

With one level both sides are exhausted before any argument.
-/

theorem execute_sides (hlevels : limit - s.inFlight = levels + 2)
    (hc : s.Resolves scope c.operation) (hd : s.Resolves scope d.operation)
    (hnot : s.Resolves scope .negation) (hargs : args ≠ []) (mode : LookupMode) :
    (Interpreter.limited limit).execute scope
        (Builtin.applied .negation [c.operation.applied args]) mode s =
      negated scope (EvalM.ended (sides c d limit levels scope args s.enter).1) ∧
    (Interpreter.limited limit).execute scope (d.operation.applied (negations args)) mode s =
      EvalM.ended (sides c d limit levels scope args s.enter).2 := by
  have hi := Interpreter.limited_ample limit
  have hlimit : (Interpreter.limited limit).limit - s.inFlight = levels + 1 + 1 := hlevels
  rw [Interpreter.execute, Interpreter.execute, hlimit]
  constructor
  · rw [Interpreter.evalAt_negation hi hnot,
      Interpreter.evalAt_applied (s := s.enter) hi hc c.isLeading_eq,
      c.body_eq_outcome _ scope hargs]
    rfl
  · rw [Interpreter.evalAt_applied hi hd d.isLeading_eq,
      d.body_eq_outcome _ scope (negations_ne_nil hargs)]
    rfl

theorem execute_one (hlevels : limit - s.inFlight = 1) (hd : s.Resolves scope d.operation)
    (hnot : s.Resolves scope .negation) (hargs : args ≠ []) (e : Expr) (mode : LookupMode) :
    (Interpreter.limited limit).execute scope (Builtin.applied .negation [e]) mode s =
      .error (.stackExhausted limit) s.enter.leave ∧
    (Interpreter.limited limit).execute scope (d.operation.applied (negations args)) mode s =
      .error (.stackExhausted limit) s.enter.leave := by
  have hi := Interpreter.limited_ample limit
  have hlimit : (Interpreter.limited limit).limit - s.inFlight = 0 + 1 := hlevels
  rw [Interpreter.execute, Interpreter.execute, hlimit]
  constructor
  · rw [Interpreter.evalAt_negation hi hnot]
    rfl
  · rw [Interpreter.evalAt_applied hi hd d.isLeading_eq,
      d.body_eq_outcome _ scope (negations_ne_nil hargs)]
    cases args with
    | nil =>
        exact absurd rfl hargs
    | cons arg rest =>
        exact congrArg EvalM.ended (d.outcome_of_error rfl _)

end Connective

/-!
# The laws

The arguments are evaluated with two evaluations in flight, on one side as on
the other.
-/

def ActAlike (left right : String) (fails : Expr → EvalError → Prop)
    (run run' : List Expr → EStateM.Result EvalError Store Evaluated) (args : List Expr) : Prop :=
  (∃ count, EvaluatesFirst count fails run args ∧ EvaluatesFirst count fails run' args) ∧
    EvalM.SameButOperator left right (run args) (run' args)

section Laws

variable {fails : Expr → EvalError → Prop} {args : List Expr}
  {run : List Expr → EStateM.Result EvalError Store Evaluated}

theorem ne_nil_of_length {rest : List Expr} {count : Nat} (hargs : args ≠ [])
    (hcount : count ≤ args.length) (hrest : rest.length = args.length - count) :
    args.take count ++ rest ≠ [] := by
  have hpos := List.length_pos_iff.mpr hargs
  apply List.ne_nil_of_length_pos
  rw [List.length_append, List.length_take, hrest]
  omega

theorem evaluatesFirst_zero (hargs : args ≠ [])
    {outcome : EStateM.Result EvalError Store Evaluated}
    (h : ∀ args, args ≠ [] → run args = outcome) : EvaluatesFirst 0 fails run args where
  count_le := Nat.zero_le _
  noticed _ hn := by
    cases hn
  ignored rest hrest := by
    rw [h args hargs]
    exact h _ (ne_nil_of_length hargs (Nat.zero_le _) hrest)

theorem Connective.Course.sides_eq {c d : Connective} {limit levels count : Nat} {scope : ScopeId}
    {base u : Store} {both : EStateM.Result EvalError Store Evaluated ×
      EStateM.Result EvalError Store Evaluated}
    (h : Course c d limit levels scope base u args count both) :
    sides c d limit levels scope args u = both := by
  have hall := h.decided (List.length_drop ..)
  rw [List.take_append_drop] at hall
  exact hall

theorem Connective.Course.evaluatesFirst {c d : Connective} {limit levels count : Nat}
    {scope : ScopeId} {base u : Store} {both : EStateM.Result EvalError Store Evaluated ×
      EStateM.Result EvalError Store Evaluated}
    (h : Course c d limit levels scope base u args count both) (hbase : base.Closed)
    (hscope : scope.Within base.extent) (hnot : base.Resolves scope .negation)
    (hargs : args ≠ [])
    (hfails : ∀ e error, fails e error → e.Within base.extent ∧
      ∃ t, (Interpreter.limited limit).evalAt levels scope e .nearest base = .error error t)
    (side : EStateM.Result EvalError Store Evaluated × EStateM.Result EvalError Store Evaluated →
      EStateM.Result EvalError Store Evaluated)
    (hside : ∀ error v, ∃ t, side (.error error v, .error error v.leave) = .error error t)
    (hrun : ∀ args, args ≠ [] → run args = side (sides c d limit levels scope args u)) :
    EvaluatesFirst count fails run args where
  count_le := h.count_le
  noticed {n e error} rest hn hfailing := by
    rcases h.reached hn with ⟨v, hv, hrest⟩
    rcases hfails e error hfailing with ⟨he, t, herror⟩
    rcases sides_of_error c d hbase hscope hnot hv he herror rest with ⟨w, hw⟩
    rcases hside error w with ⟨t', ht'⟩
    refine ⟨t', ?_⟩
    rw [hrun _ (by simp), hrest, hw, ht']
  ignored rest hrest := by
    rw [hrun _ (ne_nil_of_length hargs h.count_le hrest), h.decided hrest, hrun args hargs,
      h.sides_eq]

end Laws

theorem Connective.negation_actAlike {c d : Connective} (hdual : d.stop = !c.stop) {limit : Nat}
    {s : Store} {scope : ScopeId} {args : List Expr} (hs : s.Closed)
    (hscope : scope.Within s.extent) (hargs : Expr.WithinAll s.extent args) (hne : args ≠ [])
    (hc : s.Resolves scope c.operation) (hd : s.Resolves scope d.operation)
    (hnot : s.Resolves scope .negation) (mode : LookupMode) :
    ActAlike c.operation.name "not"
      (fun e error => e.Within s.extent ∧ ∃ t,
        (Interpreter.limited limit).execute scope e .nearest s.enter.enter = .error error t)
      (fun args => (Interpreter.limited limit).execute scope
        (Builtin.applied .negation [c.operation.applied args]) mode s)
      (fun args => (Interpreter.limited limit).execute scope
        (d.operation.applied (negations args)) mode s)
      args := by
  rcases hlevels : limit - s.inFlight with _ | _ | levels
  · have hnone (e : Expr) : (Interpreter.limited limit).execute scope e mode s =
        .error (.stackExhausted limit) s := by
      show (Interpreter.limited limit).evalAt (limit - s.inFlight) scope e mode s = _
      rw [hlevels]
      rfl
    refine ⟨⟨0, ?_, ?_⟩, ?_⟩
    · exact evaluatesFirst_zero hne fun args _ => hnone _
    · exact evaluatesFirst_zero hne fun args _ => hnone _
    · simp only [hnone]
      exact .error _ s
  · have hone {args : List Expr} (hargs : args ≠ []) :=
      execute_one hlevels hd hnot hargs (c.operation.applied args) mode
    refine ⟨⟨0, ?_, ?_⟩, ?_⟩
    · exact evaluatesFirst_zero hne fun args hargs => (hone hargs).1
    · exact evaluatesFirst_zero hne fun args hargs => (hone hargs).2
    · simp only [hone hne]
      exact .error _ _
  · have hbase : s.enter.enter.Closed := hs
    have hinside : limit - s.enter.enter.inFlight = levels := by
      show limit - (s.inFlight + 1 + 1) = levels
      omega
    have hfails (e : Expr) (error : EvalError) (h : e.Within s.extent ∧ ∃ t,
        (Interpreter.limited limit).execute scope e .nearest s.enter.enter = .error error t) :
        e.Within s.enter.enter.extent ∧ ∃ t, (Interpreter.limited limit).evalAt levels scope e
          .nearest s.enter.enter = .error error t := by
      rw [← hinside]
      exact h
    have hsides {args : List Expr} (hargs : args ≠ []) :=
      execute_sides hlevels hc hd hnot hargs mode
    rcases exists_course (u := s.enter) hdual hbase hscope hnot hbase.growsTo_self limit levels
      hargs (fun h => absurd h hne) with ⟨count, both, hboth, hcourse⟩
    refine ⟨⟨count, ?_, ?_⟩, ?_⟩
    · exact hcourse.evaluatesFirst hbase hscope hnot hne hfails
        (fun both => negated scope (EvalM.ended both.1)) (fun error v => ⟨_, rfl⟩)
        fun args hargs => (hsides hargs).1
    · exact hcourse.evaluatesFirst hbase hscope hnot hne hfails (fun both => EvalM.ended both.2)
        (fun error v => ⟨_, rfl⟩) fun args hargs => (hsides hargs).2
    · simp only [hsides hne, hcourse.sides_eq]
      exact hboth.sameButOperator

namespace Interpreter

/--
Negation exchanges conjunction and disjunction, failures included.  On at least one
argument, `(not (and ...))` does what `or` does on the negated arguments, and
`(not (or ...))` what `and` does on them: the same value in the same scope, on the same
store, or the same failure, where a type mismatch is noticed by the connective on the one
side and by the negation on the other.  Both evaluate the same arguments from the left,
two levels down, and leave the others alone.
-/
theorem negation_exchanges_connectives {limit : Nat} {s : Store} {scope : ScopeId}
    {args : List Expr} (hs : s.Closed) (hscope : scope.Within s.extent)
    (hargs : Expr.WithinAll s.extent args) (hne : args ≠ [])
    (hand : s.Resolves scope .conjunction) (hor : s.Resolves scope .disjunction)
    (hnot : s.Resolves scope .negation) (mode : LookupMode) :
    let run := fun e => (limited limit).execute scope e mode s
    let fails := fun e error => e.Within s.extent ∧
      ∃ t, (limited limit).execute scope e .nearest s.enter.enter = .error error t
    ActAlike "and" "not" fails
      (fun args => run (Builtin.applied .negation [Builtin.applied .conjunction args]))
      (fun args => run (Builtin.applied .disjunction (negations args))) args ∧
    ActAlike "or" "not" fails
      (fun args => run (Builtin.applied .negation [Builtin.applied .disjunction args]))
      (fun args => run (Builtin.applied .conjunction (negations args))) args := by
  constructor
  · exact Connective.negation_actAlike (c := .conjunction) (d := .disjunction) rfl hs hscope hargs
      hne hand hor hnot mode
  · exact Connective.negation_actAlike (c := .disjunction) (d := .conjunction) rfl hs hscope hargs
      hne hor hand hnot mode

/--
In `(not (and T NIL ()))` the second argument decides, and the empty list is not
evaluated.  The type mismatch in `(not (and 1))` is that of `and`, and in
`(or (not 1))` it is that of `not`.
-/
theorem negation_exchanges_connectives_deciding :
    let run := fun e => (limited 10).execute Store.first e .nearest Store.library
    let fails := fun e error => e.Within Store.library.extent ∧
      ∃ t, (limited 10).execute Store.first e .nearest Store.library.enter.enter = .error error t
    let args : List Expr := [.atom "T", .atom "NIL", .list []]
    let notAll := fun args => run (Builtin.applied .negation [Builtin.applied .conjunction args])
    let anyNot := fun args => run (Builtin.applied .disjunction (negations args))
    Store.library.Resolves Store.first .conjunction ∧
    Store.library.Resolves Store.first .disjunction ∧
    Store.library.Resolves Store.first .negation ∧
    EvalM.answer (notAll args) = .ok .truth ∧
    ActAlike "and" "not" fails notAll anyNot args ∧
    EvalM.answer (notAll [.num .one]) = .error (.typeMismatch "and" "boolean" "number") ∧
    EvalM.answer (anyNot [.num .one]) = .error (.typeMismatch "not" "boolean" "number") := by
  intro run fails args notAll anyNot
  have hargs : Expr.WithinAll Store.library.extent args := by
    simp [args, Expr.WithinAll, Expr.Within]
  have hand : Store.library.Resolves Store.first .conjunction := ⟨_, _, rfl⟩
  have hor : Store.library.Resolves Store.first .disjunction := ⟨_, _, rfl⟩
  have hnot : Store.library.Resolves Store.first .negation := ⟨_, _, rfl⟩
  have hboth := @negation_exchanges_connectives 10 _ _ args Store.closed_library
    Store.first_within_library hargs (List.cons_ne_nil _ _) hand hor hnot .nearest
  exact ⟨hand, hor, hnot, rfl, hboth.1, rfl, rfl⟩

end Interpreter
end ScopeLisp
