import ScopeLisp.Proofs.Isolation

/-!
# Arguments on their own

## Alone

An operation evaluates its arguments in the scope of the call, one after the
other.  The store has grown when a later one is evaluated, but nothing that it
looks at has changed.  So each argument gives what it gives alone, in the store
before the first of them.

## Sweeps

What a rule makes of its arguments is therefore known from what they give alone.
A rule that comes to a decision leaves the arguments behind it untouched.
-/

namespace ScopeLisp

/-!
# Answers

The answer of an outcome is its value or its error, without its store and
scope.
-/

def EvalM.answer : EStateM.Result EvalError Store Evaluated → Except EvalError Expr
  | .ok result _ => .ok result.value
  | .error error _ => .error error

inductive EvalM.Answers (scope : ScopeId) :
    EStateM.Result EvalError Store Evaluated → Except EvalError Expr → Prop where
  | ok (value : Expr) (t : Store) : Answers scope (.ok ⟨value, scope⟩ t) (.ok value)
  | error (error : EvalError) (t : Store) : Answers scope (.error error t) (.error error)

theorem EvalM.Answers.answer_eq {scope : ScopeId}
    {outcome : EStateM.Result EvalError Store Evaluated} {answer : Except EvalError Expr}
    (h : Answers scope outcome answer) : EvalM.answer outcome = answer := by
  cases h <;> rfl

/-- What an expression gives when it is evaluated by itself. -/
def Interpreter.alone (i : Interpreter) (levels : Nat) (scope : ScopeId) (mode : LookupMode)
    (s : Store) (e : Expr) : Except EvalError Expr :=
  EvalM.answer (i.evalAt levels scope e mode s)

namespace Rule

variable {σ : Type}

/-!
# What a rule makes of answers

A rule takes no more answers than it needs.
-/

def verdict (rule : Rule σ) (state : σ) : Except EvalError Expr → Verdict σ
  | .ok value => rule.step state value
  | .error error => .fail error

/-- What a rule makes of several answers, of which it takes no more than it needs. -/
def run (rule : Rule σ) : σ → List (Except EvalError Expr) → Verdict σ
  | state, [] => .next state
  | state, answer :: rest =>
      match rule.verdict state answer with
      | .next state => rule.run state rest
      | .stop value => .stop value
      | .fail error => .fail error

def proceed (rule : Rule σ) (eval : Evaluator) (scope : ScopeId) (rest : List Expr) :
    Verdict σ → EvalM Evaluated
  | .next state => rule.sweep eval scope state rest
  | .stop value => return ⟨value, scope⟩
  | .fail error => throw error

def judge (rule : Rule σ) (state : σ) (answers : List (Except EvalError Expr)) :
    Except EvalError Expr :=
  match rule.run state answers with
  | .next state => rule.finish state
  | .stop value => .ok value
  | .fail error => .error error

end Rule

namespace Interpreter

variable {i : Interpreter} {s u : Store} {scope : ScopeId}

/-!
# Evaluation on a store that has grown

An evaluation that is repeated on a larger store has the same answer.
-/

section Again

variable {e : Expr} {levels : Nat} {mode : LookupMode} {s₁ : Store}

theorem evalAt_again (hi : i.Ample) (hs : s.Closed) (hgrows : s.GrowsTo u)
    (hscope : scope.Within s.extent) (he : e.Within s.extent) {x : Evaluated}
    (h : i.evalAt levels scope e mode s = .ok x s₁) :
    ∃ y t, i.evalAt levels scope e mode u = .ok y t ∧ u.GrowsTo t ∧
      y.value = x.value.rename (.shift s.extent u.extent) ∧
      s₁.Renamed (.shift s.extent u.extent) t := by
  have hscope' : scope.Within u.extent := Nat.lt_of_lt_of_le hscope hgrows.covers.1
  have he' : e.Within u.extent := Expr.Within.mono hgrows.covers e he
  have hafter := (evalAt_growsTo hi hgrows.closed hscope' he' levels mode).1
  have houtcome := evalAt_renamed hi hs hgrows hscope he levels mode
  rw [h] at houtcome
  generalize i.evalAt levels scope e mode u = second at houtcome hafter ⊢
  cases houtcome with
  | @ok _ _ y _ t _ hresult hstore =>
      exact ⟨y, t, rfl, hafter, hresult.1.1, hstore.2.2⟩

theorem evalAt_again_error (hi : i.Ample) (hs : s.Closed) (hgrows : s.GrowsTo u)
    (hscope : scope.Within s.extent) (he : e.Within s.extent) {error : EvalError}
    (h : i.evalAt levels scope e mode s = .error error s₁) :
    ∃ t, i.evalAt levels scope e mode u = .error error t ∧ u.GrowsTo t := by
  have hscope' : scope.Within u.extent := Nat.lt_of_lt_of_le hscope hgrows.covers.1
  have he' : e.Within u.extent := Expr.Within.mono hgrows.covers e he
  have hafter := (evalAt_growsTo hi hgrows.closed hscope' he' levels mode).1
  have houtcome := evalAt_renamed hi hs hgrows hscope he levels mode
  rw [h] at houtcome
  generalize i.evalAt levels scope e mode u = second at houtcome hafter ⊢
  cases houtcome with
  | @error _ _ _ t _ _ _ =>
      exact ⟨t, rfl, hafter⟩
  | excused hfalse =>
      exact hfalse.elim

end Again

/-!
# Sweeps

The store in which a sweep ends does not depend on arguments that it has no use
for.
-/

variable {σ : Type} {rule : Rule σ}

theorem sweep_cons (hi : i.Ample) (hs : s.Closed) (hscope : scope.Within s.extent)
    (hrule : rule.Lawful) (hgrows : s.GrowsTo u) {arg : Expr} (harg : arg.Within s.extent)
    (levels : Nat) (state : σ) :
    ∃ t, s.GrowsTo t ∧ ∀ rest,
      rule.sweep (i.evalAt levels) scope state (arg :: rest) u =
        rule.proceed (i.evalAt levels) scope rest
          (rule.verdict state (i.alone levels scope rule.mode s arg)) t := by
  unfold alone
  cases hfirst : i.evalAt levels scope arg rule.mode s with
  | ok x s₁ =>
      rcases evalAt_again hi hs hgrows hscope harg hfirst with ⟨y, t, hrun, hafter, hvalue, _⟩
      have hwithin := (evalAt_ok_within hi hs hscope harg hfirst).1
      have hlayer := (Agreement.renamed (.shift s.extent u.extent)).layer ⟨hvalue, hwithin⟩
      refine ⟨t, hgrows.trans hafter, ?_⟩
      intro rest
      rw [Rule.sweep_cons, EvalM.bind_of_eq_ok hrun, hrule.step_eq state hlayer, EvalM.answer,
        Rule.verdict]
      cases rule.step state x.value <;> rfl
  | error error s₁ =>
      rcases evalAt_again_error hi hs hgrows hscope harg hfirst with ⟨t, hrun, hafter⟩
      refine ⟨t, hgrows.trans hafter, ?_⟩
      intro rest
      rw [Rule.sweep_cons, EvalM.bind_of_eq_error hrun]
      rfl

/--
A sweep does what its rule makes of the answers that its arguments give alone.  The
store in which it ends does not depend on arguments that it has no use for.
-/
theorem sweep_append (hi : i.Ample) (hs : s.Closed) (hscope : scope.Within s.extent)
    (hrule : rule.Lawful) (hgrows : s.GrowsTo u) {args : List Expr}
    (hargs : Expr.WithinAll s.extent args) (levels : Nat) (state : σ) :
    ∃ t, s.GrowsTo t ∧ ∀ rest,
      rule.sweep (i.evalAt levels) scope state (args ++ rest) u =
        rule.proceed (i.evalAt levels) scope rest
          (rule.run state (args.map (i.alone levels scope rule.mode s))) t := by
  induction args generalizing state u with
  | nil =>
      exact ⟨u, hgrows, fun rest => rfl⟩
  | cons arg args ih =>
      rcases sweep_cons hi hs hscope hrule hgrows hargs.1 levels state with ⟨t, ht, hcons⟩
      simp only [List.cons_append, hcons, List.map_cons, Rule.run]
      cases rule.verdict state (i.alone levels scope rule.mode s arg) with
      | next state' =>
          exact ih ht hargs.2 state'
      | stop value =>
          exact ⟨t, ht, fun rest => rfl⟩
      | fail error =>
          exact ⟨t, ht, fun rest => rfl⟩

theorem sweep_answers (hi : i.Ample) (hs : s.Closed) (hscope : scope.Within s.extent)
    (hrule : rule.Lawful) {args : List Expr} (hargs : Expr.WithinAll s.extent args) (levels : Nat)
    (state : σ) :
    EvalM.Answers scope (rule.sweep (i.evalAt levels) scope state args s)
      (rule.judge state (args.map (i.alone levels scope rule.mode s))) := by
  rcases sweep_append hi hs hscope hrule hs.growsTo_self hargs levels state with ⟨t, _, hsweep⟩
  have hall := hsweep []
  rw [List.append_nil] at hall
  rw [hall, Rule.judge]
  cases rule.run state (args.map (i.alone levels scope rule.mode s)) with
  | stop value =>
      exact .ok value t
  | fail error =>
      exact .error error t
  | next state =>
      simp only [Rule.proceed, Rule.sweep_nil]
      cases rule.finish state with
      | ok value =>
          exact .ok value t
      | error error =>
          exact .error error t

end Interpreter
end ScopeLisp
