import ScopeLisp.Proofs.Agreement

/-!
# Rules of primitives

A rule looks at no more than the outermost node of a value, it makes plain
values only, and its failures are its own.
-/

namespace ScopeLisp

theorem EvalError.isOrdinary_typeMismatch (operator expected got : String) :
    (EvalError.typeMismatch operator expected got).IsOrdinary := by
  simp [IsOrdinary]

/-- A rule that cannot tell values apart which agree in their outermost node. -/
structure Rule.Lawful {σ : Type} (rule : Rule σ) : Prop where
  step_eq {scope : ScopeId → ScopeId → Prop} {part : Expr → Expr → Prop} {e e' : Expr}
    (state : σ) : Expr.Layer scope part e e' → rule.step state e' = rule.step state e
  stop_isPlain {state : σ} {e value : Expr} : rule.step state e = .stop value → value.IsPlain
  fail_isOrdinary {state : σ} {e : Expr} {error : EvalError} :
    rule.step state e = .fail error → error.IsOrdinary
  finish_isPlain {state : σ} {value : Expr} : rule.finish state = .ok value → value.IsPlain
  finish_isOrdinary {state : σ} {error : EvalError} :
    rule.finish state = .error error → error.IsOrdinary

structure LawfulApplication (apply : Expr → Except EvalError Expr) : Prop where
  apply_eq {scope : ScopeId → ScopeId → Prop} {part : Expr → Expr → Prop} {e e' : Expr} :
    Expr.Layer scope part e e' → apply e' = apply e
  ok_isPlain {e value : Expr} : apply e = .ok value → value.IsPlain
  error_isOrdinary {e : Expr} {error : EvalError} : apply e = .error error → error.IsOrdinary

theorem truthValue_isOrdinary {operator : String} {e : Expr} {error : EvalError}
    (h : truthValue operator e = .error error) : error.IsOrdinary := by
  cases e <;> cases h <;> exact EvalError.isOrdinary_typeMismatch _ _ _

theorem numberChars_isOrdinary {e : Expr} {error : EvalError} (h : numberChars e = .error error) :
    error.IsOrdinary := by
  cases e <;> cases h <;> simp [EvalError.IsOrdinary]

/-!
# The rules of the builtins

Arithmetic, comparisons, connectives and operators of one argument are all
lawful.
-/

theorem Rule.fold_lawful (name : String) (op : Binary32 → Binary32 → Binary32) :
    (Rule.fold name op).Lawful where
  step_eq state h := by
    cases state <;> cases h <;> rfl
  stop_isPlain {state e value} h := by
    cases state <;> cases e <;> cases h
  fail_isOrdinary {state e error} h := by
    cases state <;> cases e <;> cases h <;> exact EvalError.isOrdinary_typeMismatch _ _ _
  finish_isPlain {state value} h := by
    cases state <;> cases h
    exact .num _
  finish_isOrdinary {state error} h := by
    cases state <;> cases h
    exact EvalError.isOrdinary_typeMismatch _ _ _

theorem Rule.chain_lawful (name : String) (holds : Binary32 → Binary32 → Bool) :
    (Rule.chain name holds).Lawful where
  step_eq state h := by
    cases state <;> cases h <;> rfl
  stop_isPlain {state e value} h := by
    cases state with
    | none =>
        cases e <;> cases h
    | some previous =>
        cases e with
        | num x =>
            simp only [Rule.chain] at h
            split at h
            · cases h
            · cases h
              exact .null
        | _ =>
            cases h
  fail_isOrdinary {state e error} h := by
    cases state with
    | none =>
        cases e <;> cases h <;> exact EvalError.isOrdinary_typeMismatch _ _ _
    | some previous =>
        cases e with
        | num x =>
            simp only [Rule.chain] at h
            split at h <;> cases h
        | _ =>
            cases h
            exact EvalError.isOrdinary_typeMismatch _ _ _
  finish_isPlain h := by
    cases h
    exact .truth
  finish_isOrdinary h := by
    cases h

theorem Rule.all_lawful (name : String) : (Rule.all name).Lawful where
  step_eq state h := by
    simp only [Rule.all, h.truthValue_eq]
  stop_isPlain {state e value} h := by
    simp only [Rule.all] at h
    split at h <;> cases h
    exact .null
  fail_isOrdinary {state e error} h := by
    simp only [Rule.all] at h
    split at h <;> cases h
    exact truthValue_isOrdinary ‹_›
  finish_isPlain h := by
    cases h
    exact .ofBool _
  finish_isOrdinary h := by
    cases h

theorem Rule.any_lawful (name : String) : (Rule.any name).Lawful where
  step_eq state h := by
    simp only [Rule.any, h.truthValue_eq]
  stop_isPlain {state e value} h := by
    simp only [Rule.any] at h
    split at h <;> cases h
    exact .truth
  fail_isOrdinary {state e error} h := by
    simp only [Rule.any] at h
    split at h <;> cases h
    exact truthValue_isOrdinary ‹_›
  finish_isPlain h := by
    cases h
    exact .null
  finish_isOrdinary h := by
    cases h

theorem Rule.single_lawful {apply : Expr → Except EvalError Expr}
    (happly : LawfulApplication apply) : (Rule.single apply).Lawful where
  step_eq state h := by
    simp only [Rule.single, happly.apply_eq h]
  stop_isPlain {state e value} h := by
    simp only [Rule.single] at h
    split at h <;> cases h
    exact happly.ok_isPlain ‹_›
  fail_isOrdinary {state e error} h := by
    simp only [Rule.single] at h
    split at h <;> cases h
    exact happly.error_isOrdinary ‹_›
  finish_isPlain h := by
    cases h
    exact .null
  finish_isOrdinary h := by
    cases h

theorem shiftBy_lawful (name : String) (amount : Binary32) :
    LawfulApplication (shiftBy name amount) where
  apply_eq h := h.shiftBy_eq name amount
  ok_isPlain {e value} h := by
    cases e <;> cases h
    exact .num _
  error_isOrdinary {e error} h := by
    cases e <;> cases h <;> exact EvalError.isOrdinary_typeMismatch _ _ _

theorem negate_lawful (name : String) : LawfulApplication (negate name) where
  apply_eq h := by
    simp only [negate, h.truthValue_eq]
  ok_isPlain {e value} h := by
    unfold negate at h
    cases htruth : truthValue name e with
    | ok truth =>
        rw [htruth] at h
        cases h
        exact .ofBool _
    | error error =>
        rw [htruth] at h
        cases h
  error_isOrdinary {e error} h := by
    unfold negate at h
    cases htruth : truthValue name e with
    | ok truth =>
        rw [htruth] at h
        cases h
    | error error' =>
        rw [htruth] at h
        cases h
        exact truthValue_isOrdinary htruth

end ScopeLisp
