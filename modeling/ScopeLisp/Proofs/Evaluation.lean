import ScopeLisp.Proofs.ListResults

/-!
# Evaluation under an agreement

Each form of the language takes evaluators that correspond to computations that
correspond.  The forms are taken in the order in which they are built up, from
primitives and bindings to invocations and whole evaluations.
-/

namespace ScopeLisp
namespace Agreement

variable {A : Agreement} {eval eval' : Evaluator} {w : A.World} {a b : ScopeId}
  {args args' : List Expr}

/-!
# Printed forms

Expressions that correspond are printed alike.
-/

theorem exprs_later {w' : A.World} (hlater : A.Later w w')
    (h : List.Forall₂ (A.expr w) args args') : List.Forall₂ (A.expr w') args args' :=
  h.imp fun _ _ => A.expr_later hlater

mutual

theorem chars_eq {w : A.World} : (e : Expr) → {e' : Expr} → A.expr w e e' → e'.chars = e.chars
  | .quoted e, _, h => by
      cases A.layer h with
      | quoted hinner =>
          rw [Expr.chars_quoted, Expr.chars_quoted, chars_eq e hinner]
  | .list items, _, h => by
      cases A.layer h with
      | list hitems =>
          rw [Expr.chars_list, Expr.chars_list, charsAll_eq items hitems]
  | .atom _, _, h => by
      cases A.layer h
      rfl
  | .str _, _, h => by
      cases A.layer h
      rfl
  | .num _, _, h => by
      cases A.layer h
      rfl
  | .native _ _ _, _, h => by
      cases A.layer h
      rfl
  | .lambda _ _ _, _, h => by
      cases A.layer h
      rfl
  | .null, _, h => by
      cases A.layer h
      rfl

theorem charsAll_eq {w : A.World} : (es : List Expr) → {es' : List Expr} →
    List.Forall₂ (A.expr w) es es' → Expr.charsAll es' = Expr.charsAll es
  | [], _, h => by
      cases h
      rfl
  | e :: rest, _, h => by
      cases h with
      | cons hfirst hrest =>
          rw [Expr.charsAll_cons, Expr.charsAll_cons, chars_eq e hfirst, charsAll_eq rest hrest]

end

theorem toText_eq {e e' : Expr} (h : A.expr w e e') : e'.toText = e.toText := by
  rw [Expr.toText, Expr.toText, chars_eq e h]

/-!
# Primitives

A lawful rule cannot tell values apart that correspond, so its sweeps over
arguments that correspond do.
-/

theorem sweep (heval : A.Evaluators eval eval') {σ : Type} {rule : Rule σ} (hrule : rule.Lawful)
    (state : σ) (hscope : A.scope w a b) (hargs : List.Forall₂ (A.expr w) args args') :
    A.Acts w A.evaluated (rule.sweep eval a state args) (rule.sweep eval' b state args') := by
  induction args generalizing args' state w with
  | nil =>
      cases hargs
      rw [Rule.sweep_nil, Rule.sweep_nil]
      apply Acts.bind (Acts.ofExcept (r := fun w => A.expr w) _ _)
      · intro w' x y hlater hvalue
        exact Acts.pure ⟨hvalue, A.scope_later hlater hscope⟩
      · intro value h
        exact ⟨value, h, A.plain (hrule.finish_isPlain h)⟩
      · intro e h
        exact ⟨h, hrule.finish_isOrdinary h⟩
  | cons arg rest ih =>
      cases hargs with
      | cons harg hrest =>
          rw [Rule.sweep_cons, Rule.sweep_cons]
          apply Acts.bind (heval rule.mode hscope harg)
          intro w' x y hlater hvalue
          rw [hrule.step_eq state (A.layer hvalue.1)]
          cases hverdict : rule.step state x.value with
          | next state' =>
              exact ih state' (A.scope_later hlater hscope) (exprs_later hlater hrest)
          | stop value =>
              exact Acts.pure ⟨A.plain (hrule.stop_isPlain hverdict), A.scope_later hlater hscope⟩
          | fail e =>
              exact Acts.throw (hrule.fail_isOrdinary hverdict)

theorem unary (heval : A.Evaluators eval eval') (name : String)
    {apply : Expr → Except EvalError Expr} (happly : LawfulApplication apply)
    (hscope : A.scope w a b) (hargs : List.Forall₂ (A.expr w) args args') :
    A.Acts w A.evaluated (ScopeLisp.unary name apply eval a args)
      (ScopeLisp.unary name apply eval' b args') := by
  have hlength := hargs.length_eq
  unfold ScopeLisp.unary
  split
  · cases hargs with
    | cons harg hrest =>
        cases hrest
        exact sweep heval (Rule.single_lawful happly) () hscope (.cons harg .nil)
  · rename_i hmany
    split
    · rename_i arg'
      obtain ⟨arg, rfl⟩ := List.length_eq_one_iff.mp hlength
      exact (hmany arg rfl).elim
    · rw [← hlength]
      exact Acts.throw (by simp [EvalError.IsOrdinary])

/-!
# Templates

Templates are filled alike when their arguments correspond.
-/

theorem interpolate_of_ne (eval : Evaluator) (scope : ScopeId) {c : Char} (hc : c ≠ '%')
    (rest : List Char) (args : List Expr) :
    ScopeLisp.interpolate eval scope (c :: rest) args =
      (do
        let text ← ScopeLisp.interpolate eval scope rest args
        return c :: text) := by
  rw [ScopeLisp.interpolate]
  all_goals
    intros
    simp_all

theorem interpolate (heval : A.Evaluators eval eval') : (template : List Char) →
    {w : A.World} → {args args' : List Expr} → A.scope w a b →
      List.Forall₂ (A.expr w) args args' →
        A.Acts w (fun _ x y => x = y) (ScopeLisp.interpolate eval a template args)
          (ScopeLisp.interpolate eval' b template args')
  | [], w, args, args', _, _ => by
      rw [interpolate_nil, interpolate_nil]
      exact Acts.pure rfl
  | [c], w, args, args', hscope, hargs => by
      by_cases hc : c = '%'
      · subst hc
        rw [ScopeLisp.interpolate, ScopeLisp.interpolate]
        exact Acts.pure rfl
      · rw [interpolate_of_ne eval a hc, interpolate_of_ne eval' b hc]
        apply Acts.bind (interpolate heval [] hscope hargs)
        rintro w' x y _ rfl
        exact Acts.pure rfl
  | c :: directive :: rest, w, args, args', hscope, hargs => by
      by_cases hc : c = '%'
      · subst hc
        cases hargs with
        | nil =>
            rw [ScopeLisp.interpolate, ScopeLisp.interpolate]
            apply Acts.bind (interpolate heval rest hscope .nil)
            rintro w' x y _ rfl
            exact Acts.pure rfl
        | cons harg hrest =>
            rw [ScopeLisp.interpolate, ScopeLisp.interpolate]
            split
            · apply Acts.bind (heval .nearest hscope harg)
              intro w₁ result result' hlater₁ hresult
              rw [(A.layer hresult.1).numberChars_eq]
              apply Acts.bind (Acts.ofExcept (r := fun _ x y => x = y) _ _)
              · rintro w₂ number _ hlater₂ rfl
                have hlater := A.later_trans hlater₁ hlater₂
                apply Acts.bind (interpolate heval rest (A.scope_later hlater hscope)
                  (exprs_later hlater hrest))
                rintro w₃ text _ _ rfl
                exact Acts.pure rfl
              · intro number h
                exact ⟨number, h, rfl⟩
              · intro e h
                exact ⟨h, numberChars_isOrdinary h⟩
            · exact Acts.throw (by simp [EvalError.IsOrdinary])
      · rw [interpolate_of_ne eval a hc, interpolate_of_ne eval' b hc]
        apply Acts.bind (interpolate heval (directive :: rest) hscope hargs)
        rintro w' x y _ rfl
        exact Acts.pure rfl

/-!
# Sequences and bindings

The pairs of two binding forms have the same names and failures, and
expressions that correspond.
-/

theorem evalSequence (heval : A.Evaluators eval eval') {last last' : Evaluated}
    (hlast : A.evaluated w last last') (hargs : List.Forall₂ (A.expr w) args args') :
    A.Acts w A.evaluated (ScopeLisp.evalSequence eval last args)
      (ScopeLisp.evalSequence eval' last' args') := by
  induction args generalizing args' last last' w with
  | nil =>
      cases hargs
      exact Acts.pure hlast
  | cons arg rest ih =>
      cases hargs with
      | cons harg hrest =>
          apply Acts.bind (heval .nearest hlast.2 harg)
          intro w' next next' hlater hnext
          exact ih hnext (exprs_later hlater hrest)

/--
Names with their expressions, or failures in place of them.  The names and the
failures are the same, and the expressions are related.
-/
inductive Pair (part : Expr → Expr → Prop) :
    Except EvalError (String × Expr) → Except EvalError (String × Expr) → Prop where
  | ok (name : String) {e e' : Expr} (h : part e e') : Pair part (.ok (name, e)) (.ok (name, e'))
  | error {error : EvalError} (h : error.IsOrdinary) : Pair part (.error error) (.error error)

theorem Pair.mono {part part' : Expr → Expr → Prop} {p p' : Except EvalError (String × Expr)}
    (h : Pair part p p') (himp : ∀ e e', part e e' → part' e e') : Pair part' p p' := by
  cases h with
  | ok name h =>
      exact .ok name (himp _ _ h)
  | error h =>
      exact .error h

theorem bindingPair_pair {e e' : Expr} (h : A.expr w e e') :
    Pair (A.expr w) (bindingPair e) (bindingPair e') := by
  have hpair : (EvalError.malformed .bindingPair).IsOrdinary := by
    simp [EvalError.IsOrdinary]
  cases A.layer h with
  | list hitems =>
      cases hitems with
      | nil =>
          exact .error hpair
      | cons hname hrest =>
          cases hrest with
          | nil =>
              cases A.layer hname <;> exact .error hpair
          | cons hvalue hrest =>
              cases hrest with
              | nil =>
                  cases A.layer hname with
                  | atom name =>
                      exact .ok name hvalue
                  | _ =>
                      exact .error (by simp [EvalError.IsOrdinary])
              | cons hmore hrest =>
                  cases A.layer hname <;> exact .error hpair
  | _ =>
      exact .error hpair

theorem zip_pairs {part : Expr → Expr → Prop} (params : List String)
    (hargs : List.Forall₂ part args args') :
    List.Forall₂ (Pair part) ((params.zip args).map .ok) ((params.zip args').map .ok) := by
  induction params generalizing args args' with
  | nil =>
      exact .nil
  | cons param params ih =>
      cases hargs with
      | nil =>
          exact .nil
      | cons harg hrest =>
          exact .cons (.ok param harg) (ih hrest)

/-!
# Values that correspond

A loop of bindings asks only for the values of its expressions, not for the
scopes in which they are evaluated.
-/

def valued (A : Agreement) (w : A.World) (x y : Evaluated) : Prop :=
  A.expr w x.value y.value

/-- Expressions that evaluators take to values that correspond, now and later. -/
def Gives (A : Agreement) (w : A.World) (x y : Expr → EvalM Evaluated) (e e' : Expr) : Prop :=
  ∀ w', A.Later w w' → A.Acts w' A.valued (x e) (y e')

theorem gives_of_expr (heval : A.Evaluators eval eval') (hscope : A.scope w a b)
    {e e' : Expr} (he : A.expr w e e') :
    A.Gives w (eval a · .nearest) (eval' b · .nearest) e e' := by
  intro w' hlater
  apply (heval .nearest (A.scope_later hlater hscope) (A.expr_later hlater he)).mono
  intro _ _ _ _ h
  exact h.1

theorem bindEach {inner inner' : ScopeId} {pairs pairs' : List (Except EvalError (String × Expr))}
    (hinner : A.opened w inner inner')
    (hpairs : List.Forall₂ (Pair (A.Gives w (eval a · .nearest) (eval' b · .nearest)))
      pairs pairs') :
    A.Acts w (fun _ _ _ => True) (ScopeLisp.bindEach eval a inner pairs)
      (ScopeLisp.bindEach eval' b inner' pairs') := by
  induction pairs generalizing pairs' w with
  | nil =>
      cases hpairs
      exact Acts.pure trivial
  | cons pair rest ih =>
      cases hpairs with
      | cons hpair hrest =>
          cases hpair with
          | error h =>
              exact Acts.throw h
          | ok name h =>
              apply Acts.bind (h w (A.later_refl w))
              intro w₁ value value' hlater₁ hvalue
              apply Acts.bind (Acts.bindName name (A.opened_later hlater₁ hinner) hvalue)
              intro w₂ _ _ hlater₂ _
              have hlater := A.later_trans hlater₁ hlater₂
              apply ih (A.opened_later hlater hinner)
              apply hrest.imp
              intro p p' hpair
              apply hpair.mono
              intro e e' h w' hlater'
              exact h w' (A.later_trans hlater hlater')

theorem bindingsForm (heval : A.Evaluators eval eval') (hscope : A.scope w a b)
    (hargs : List.Forall₂ (A.expr w) args args') :
    A.Acts w A.evaluated (ScopeLisp.bindingsForm eval a args)
      (ScopeLisp.bindingsForm eval' b args') := by
  cases hargs with
  | nil =>
      exact Acts.throw (by simp [EvalError.IsOrdinary])
  | cons harg hrest =>
      cases hrest with
      | cons hmore hrest =>
          cases A.layer harg <;> exact Acts.throw (by simp [EvalError.IsOrdinary])
      | nil =>
          cases A.layer harg with
          | @list pairs pairs' hpairs =>
              apply Acts.bind (Acts.openScope hscope)
              intro w₁ inner inner' hlater₁ hinner
              have hall : List.Forall₂ (Pair (A.Gives w₁ (eval a · .nearest) (eval' b · .nearest)))
                  (pairs.map bindingPair) (pairs'.map bindingPair) := by
                apply List.forall₂_map_left_iff.mpr
                apply List.forall₂_map_right_iff.mpr
                apply (exprs_later hlater₁ hpairs).imp
                intro e e' he
                apply (bindingPair_pair he).mono
                intro _ _ h
                exact gives_of_expr heval (A.scope_later hlater₁ hscope) h
              apply Acts.bind (bindEach hinner hall)
              intro w₂ _ _ hlater₂ _
              exact Acts.pure
                ⟨A.plain .null, A.scope_of_opened (A.opened_later hlater₂ hinner)⟩
          | _ =>
              exact Acts.throw (by simp [EvalError.IsOrdinary])

/-!
# Definitions

Definitions that correspond have the same name and parameters, and bodies that
correspond.
-/

theorem parameterNames_eq (hargs : List.Forall₂ (A.expr w) args args') :
    parameterNames args' = parameterNames args := by
  induction hargs with
  | nil =>
      rfl
  | cons harg _ ih =>
      cases A.layer harg with
      | atom name =>
          rw [parameterNames, parameterNames, ih]
      | _ =>
          rfl

theorem parameterNames_isOrdinary {error : EvalError} (h : parameterNames args = .error error) :
    error.IsOrdinary := by
  induction args with
  | nil =>
      cases h
  | cons arg rest ih =>
      cases arg with
      | atom name =>
          rw [parameterNames] at h
          cases hrest : parameterNames rest with
          | ok names =>
              rw [hrest] at h
              cases h
          | error error' =>
              rw [hrest] at h
              cases h
              exact ih hrest
      | _ =>
          cases h
          simp [EvalError.IsOrdinary]

def Defined (A : Agreement) (w : A.World) (d d' : String × List String × List Expr) : Prop :=
  d.1 = d'.1 ∧ d.2.1 = d'.2.1 ∧ A.expr w (.list d.2.2) (.list d'.2.2) ∧
    ∃ params params', A.expr w (.list params) (.list params') ∧ parameterNames params = .ok d.2.1

theorem definition_of_length_ne (h : args.length ≠ 3) :
    ScopeLisp.definition args = .error (.malformed .defineArity) := by
  unfold ScopeLisp.definition
  split <;> simp at h ⊢

theorem definition (hargs : List.Forall₂ (A.expr w) args args') :
    A.Acts w A.Defined (EvalM.ofExcept (ScopeLisp.definition args))
      (EvalM.ofExcept (ScopeLisp.definition args')) := by
  by_cases hlength : args.length = 3
  · obtain ⟨head, second, third, rfl⟩ := List.length_eq_three.mp hlength
    rcases hargs with _ | ⟨hhead, _ | ⟨hsecond, _ | ⟨hthird, _ | _⟩⟩⟩
    cases A.layer hhead with
    | atom name =>
        cases A.layer hsecond with
        | list hparams =>
            simp only [ScopeLisp.definition, parameterNames_eq hparams]
            cases hnames : parameterNames _ with
            | error error =>
                exact Acts.throw (parameterNames_isOrdinary hnames)
            | ok names =>
                cases A.layer hthird with
                | list hbody =>
                    exact Acts.pure ⟨rfl, rfl, hthird, _, _, hsecond, hnames⟩
                | _ =>
                    exact Acts.throw (by simp [EvalError.IsOrdinary])
        | _ =>
            exact Acts.throw (by simp [EvalError.IsOrdinary])
    | _ =>
        exact Acts.throw (by simp [EvalError.IsOrdinary])
  · rw [definition_of_length_ne hlength,
      definition_of_length_ne (hargs.length_eq ▸ hlength)]
    exact Acts.throw (by simp [EvalError.IsOrdinary])

theorem defineForm (eval eval' : Evaluator) (hscope : A.scope w a b)
    (hargs : List.Forall₂ (A.expr w) args args') :
    A.Acts w A.evaluated (ScopeLisp.defineForm eval a args)
      (ScopeLisp.defineForm eval' b args') := by
  apply Acts.bind (definition hargs)
  rintro w₁ ⟨name, names, body⟩ ⟨_, _, body'⟩ hlater₁ ⟨rfl, rfl, hbody, _, _, hparams, hnames⟩
  have hscope₁ := A.scope_later hlater₁ hscope
  apply Acts.bind (Acts.newIdentity hscope₁ hparams hnames hbody)
  intro w₂ identity identity' hlater₂ hlambda
  apply Acts.bind (Acts.openScope (A.scope_later hlater₂ hscope₁))
  intro w₃ inner inner' hlater₃ hinner
  have hlambda₃ := A.expr_later hlater₃ hlambda
  apply Acts.bind (Acts.bindName name hinner hlambda₃)
  intro w₄ _ _ hlater₄ _
  exact Acts.pure ⟨A.expr_later hlater₄ hlambda₃,
    A.scope_of_opened (A.opened_later hlater₄ hinner)⟩

/-!
# Assertions

Tests that correspond are both null or neither is, and the messages are filled
alike.
-/

theorem assertionForm (heval : A.Evaluators eval eval') (hscope : A.scope w a b)
    (hargs : List.Forall₂ (A.expr w) args args') :
    A.Acts w A.evaluated (ScopeLisp.assertionForm eval a args)
      (ScopeLisp.assertionForm eval' b args') := by
  cases hargs with
  | nil =>
      exact Acts.throw (by simp [EvalError.IsOrdinary])
  | cons htest hrest =>
      apply Acts.bind (heval .nearest hscope htest)
      intro w₁ tested tested' hlater₁ htested
      have hscope₁ := A.scope_later hlater₁ hscope
      rw [(A.layer htested.1).isTruthy_eq]
      split
      · exact Acts.pure ⟨A.plain .truth, hscope₁⟩
      · cases exprs_later hlater₁ hrest with
        | nil =>
            exact Acts.throw (by simp [EvalError.IsOrdinary])
        | cons hmessage hrest₁ =>
            apply Acts.bind (heval .nearest hscope₁ hmessage)
            intro w₂ wanted wanted' hlater₂ hwanted
            rw [(A.layer hwanted.1).isTruthy_eq]
            split
            · cases exprs_later hlater₂ hrest₁ with
              | nil =>
                  exact Acts.throw (by simp [EvalError.IsOrdinary])
              | cons htemplate hrest₂ =>
                  cases A.layer htemplate with
                  | str template =>
                      apply Acts.bind (interpolate heval template.toList
                        (A.scope_later hlater₂ hscope₁) hrest₂)
                      rintro w₃ text _ _ rfl
                      exact Acts.throw (by simp [EvalError.IsOrdinary])
                  | _ =>
                      exact Acts.throw (by simp [EvalError.IsOrdinary])
            · exact Acts.throw (by simp [EvalError.IsOrdinary])

/-!
# Invocations

Builtins correspond by the lemmas about their forms.  An invocation gives lists
only if they stand quoted in it.
-/

theorem builtin (heval : A.Evaluators eval eval') (operation : Builtin) (hscope : A.scope w a b)
    (hargs : List.Forall₂ (A.expr w) args args') :
    A.Acts w A.evaluated (operation.body eval a args) (operation.body eval' b args') := by
  cases operation with
  | sequence =>
      exact evalSequence heval ⟨A.plain .null, hscope⟩ hargs
  | define =>
      exact defineForm eval eval' hscope hargs
  | bindings =>
      exact bindingsForm heval hscope hargs
  | assertion =>
      exact assertionForm heval hscope hargs
  | arithmetic op =>
      exact sweep heval (Rule.fold_lawful _ _) none hscope hargs
  | comparison op =>
      exact sweep heval (Rule.chain_lawful _ _) none hscope hargs
  | increment =>
      exact unary heval _ (shiftBy_lawful _ _) hscope hargs
  | decrement =>
      exact unary heval _ (shiftBy_lawful _ _) hscope hargs
  | conjunction =>
      exact sweep heval (Rule.all_lawful _) false hscope hargs
  | disjunction =>
      exact sweep heval (Rule.any_lawful _) () hscope hargs
  | negation =>
      exact unary heval _ (negate_lawful _) hscope hargs

/-!
# Calls

Two functions that correspond may be called from any two scopes, as long as the
values of their arguments correspond.
-/

theorem call_valued (heval : A.Evaluators eval eval') (name : String) {home home' : ScopeId}
    (params : List String) {body body' : List Expr} (hhome : A.scope w home home')
    (hbody : A.expr w (.list body) (.list body'))
    (hargs : List.Forall₂ (A.Gives w (eval a · .nearest) (eval' b · .nearest)) args args') :
    A.Acts w A.valued (Interpreter.call eval a name home params body args)
      (Interpreter.call eval' b name home' params body' args') := by
  unfold Interpreter.call
  rw [← hargs.length_eq]
  split
  · exact Acts.throw (by simp [EvalError.IsOrdinary])
  · apply Acts.bind (Acts.openScope hhome)
    intro w₁ inner inner' hlater₁ hinner
    have hargs₁ : List.Forall₂ (A.Gives w₁ (eval a · .nearest) (eval' b · .nearest)) args args' :=
      hargs.imp fun _ _ h w' hlater' => h w' (A.later_trans hlater₁ hlater')
    apply Acts.bind (bindEach hinner (zip_pairs params hargs₁))
    intro w₂ _ _ hlater₂ _
    have hlater := A.later_trans hlater₁ hlater₂
    apply Acts.bind (heval .nearest (A.scope_of_opened (A.opened_later hlater₂ hinner))
      (A.expr_later hlater hbody))
    intro w₃ result result' _ hresult
    exact Acts.pure hresult.1

theorem call (heval : A.Evaluators eval eval') (name : String) {home home' : ScopeId}
    (params : List String) {body body' : List Expr} (hscope : A.scope w a b)
    (hhome : A.scope w home home') (hbody : A.expr w (.list body) (.list body'))
    (hargs : List.Forall₂ (A.expr w) args args') :
    A.Acts w A.evaluated (Interpreter.call eval a name home params body args)
      (Interpreter.call eval' b name home' params body' args') := by
  have hvalued := (call_valued heval name params hhome hbody
    (hargs.imp fun _ _ => gives_of_expr heval hscope)).and
    (fun s x t => Interpreter.call_scope) (fun s y t => Interpreter.call_scope)
  apply hvalued.mono
  rintro w' ⟨value, _⟩ ⟨value', _⟩ hlater ⟨hvalue, rfl, rfl⟩
  exact ⟨hvalue, A.scope_later hlater hscope⟩

/-- Results of the invocations of two lists, which are lists only if they stand quoted in them. -/
def Invoked (A : Agreement) (items items' : List Expr) (w : A.World) (x y : Evaluated) : Prop :=
  A.evaluated w x y ∧ (∀ next, x.value = .list next → .quoted (.list next) ∈ items) ∧
    ∀ next, y.value = .list next → .quoted (.list next) ∈ items'

theorem invoke (heval : A.Evaluators eval eval') (hquotes : eval.OnlyQuotes)
    (hquotes' : eval'.OnlyQuotes) (i i' : Interpreter) (hscope : A.scope w a b)
    (hargs : List.Forall₂ (A.expr w) args args') :
    A.Acts w (A.Invoked args args') (i.invoke eval a args) (i'.invoke eval' b args') := by
  cases hargs with
  | nil =>
      exact Acts.throw (by simp [EvalError.IsOrdinary])
  | cons hhead hrest =>
      have htext := toText_eq hhead
      cases A.layer hhead with
      | atom name =>
          apply Acts.bind (Acts.lookup name .nearest hscope)
          intro w₁ found found' hlater₁ hfound
          have hscope₁ := A.scope_later hlater₁ hscope
          have hrest₁ := exprs_later hlater₁ hrest
          cases hfound with
          | none =>
              exact Acts.throw (by simp [EvalError.IsOrdinary])
          | some hvalue =>
              have htext := toText_eq hvalue
              cases A.layer hvalue with
              | native m n name' operation =>
                  apply (builtin heval operation hscope₁ hrest₁).and
                  · intro s result t h next hnext
                    exact List.mem_cons_of_mem _ (Builtin.quoted_mem_of_body hquotes h hnext)
                  · intro s result t h next hnext
                    exact List.mem_cons_of_mem _ (Builtin.quoted_mem_of_body hquotes' h hnext)
              | lambda params hhome hbody =>
                  apply (call heval name params hscope₁ hhome hbody hrest₁).and
                  · intro s result t h next hnext
                    have hlist := Interpreter.isList_of_call hquotes h
                    rw [hnext] at hlist
                    cases hlist
                  · intro s result t h next hnext
                    have hlist := Interpreter.isList_of_call hquotes' h
                    rw [hnext] at hlist
                    cases hlist
              | _ =>
                  simp only [htext]
                  exact Acts.throw (by simp [EvalError.IsOrdinary])
      | _ =>
          simp only [Interpreter.invoke, htext]
          exact Acts.throw (by simp [EvalError.IsOrdinary])

/-!
# Settling

Each list that an invocation gives lies inside the list before it, so on either
side the size of the first list is enough for all rounds.
-/

theorem settle (heval : A.Evaluators eval eval') (hquotes : eval.OnlyQuotes)
    (hquotes' : eval'.OnlyQuotes) (i i' : Interpreter) {rounds rounds' : Nat}
    {x y : Evaluated} (hxy : A.evaluated w x y) (hx : x.Fits rounds) (hy : y.Fits rounds') :
    A.Acts w A.evaluated (i.settle eval rounds x) (i'.settle eval' rounds' y) := by
  induction rounds generalizing rounds' x y w with
  | zero =>
      have hlist : x.value.isList = false := by
        cases hvalue : x.value with
        | list items =>
            have hpos := Expr.size_pos (.list items)
            have hzero := hx items hvalue
            omega
        | _ =>
            rfl
      have hlist' : y.value.isList = false := (A.layer hxy.1).isList_eq.trans hlist
      rw [Interpreter.settle_of_isList_eq_false i eval 0 hlist,
        Interpreter.settle_of_isList_eq_false i' eval' rounds' hlist']
      exact Acts.pure hxy
  | succ rounds ih =>
      obtain ⟨value, scope⟩ := x
      obtain ⟨value', scope'⟩ := y
      cases A.layer hxy.1 with
      | @list items items' hitems =>
          have hsize := hx items rfl
          have hsize' := hy items' rfl
          cases rounds' with
          | zero =>
              have hpos := Expr.size_pos (.list items')
              omega
          | succ rounds' =>
              rw [Interpreter.settle_succ_list, Interpreter.settle_succ_list]
              apply Acts.bind (invoke heval hquotes hquotes' i i' hxy.2 hitems)
              rintro w₁ next next' hlater ⟨hnext, hmem, hmem'⟩
              exact ih hnext (Evaluated.fits_of_quoted_mem hsize hmem)
                (Evaluated.fits_of_quoted_mem hsize' hmem')
      | _ =>
          rw [Interpreter.settle_of_isList_eq_false i eval _ rfl,
            Interpreter.settle_of_isList_eq_false i' eval' _ rfl]
          exact Acts.pure hxy

end Agreement

/-- An interpreter that allows as many rounds as the first list has nodes. -/
def Interpreter.Ample (i : Interpreter) : Prop :=
  ∀ e : Expr, e.size ≤ i.rounds e

namespace Agreement

variable {A : Agreement} {eval eval' : Evaluator}

theorem evalWith (heval : A.Evaluators eval eval') (hquotes : eval.OnlyQuotes)
    (hquotes' : eval'.OnlyQuotes) {i i' : Interpreter} (hi : i.Ample) (hi' : i'.Ample) :
    A.Evaluators (i.evalWith eval) (i'.evalWith eval') := by
  intro w a b e e' mode hscope he
  have hsettle : ∀ {w : A.World} {v v' : Expr} {a b : ScopeId}, A.expr w v v' → A.scope w a b →
      A.Acts w A.evaluated (i.settle eval (i.rounds v) ⟨v, a⟩)
        (i'.settle eval' (i'.rounds v') ⟨v', b⟩) := by
    intro w v v' a b hv hscope
    apply settle heval hquotes hquotes' i i' ⟨hv, hscope⟩
    · rintro items rfl
      exact hi _
    · rintro items rfl
      exact hi' _
  cases A.layer he with
  | quoted hinner =>
      exact Acts.pure ⟨hinner, hscope⟩
  | atom name =>
      apply Acts.bind (Acts.lookup name mode hscope)
      intro w₁ found found' hlater hfound
      have hscope₁ := A.scope_later hlater hscope
      cases hfound with
      | none =>
          exact hsettle (A.plain .null) hscope₁
      | some hvalue =>
          exact hsettle hvalue hscope₁
  | _ =>
      exact hsettle he hscope

/-!
# Levels

Counting the evaluations in flight touches neither scopes nor functions, so an
agreement about these holds on every level.
-/

/-- An agreement for which the number of evaluations in flight makes no difference. -/
structure Uncounted (A : Agreement) : Prop where
  enter {w : A.World} {s s' : Store} : A.store w s s' → A.store w s.enter s'.enter
  leave {w : A.World} {s s' : Store} : A.store w s s' → A.store w s.leave s'.leave
  exhausted (limit : Nat) : A.shared (.stackExhausted limit)

theorem Uncounted.counted (hA : A.Uncounted) {w : A.World} {α β : Type} {r : A.World → α → β → Prop}
    {x : EvalM α} {y : EvalM β} (h : A.Acts w r x y) :
    A.Acts w r (EvalM.counted x) (EvalM.counted y) := by
  intro s s' hs
  have hrun := h s.enter s'.enter (hA.enter hs)
  unfold EvalM.counted
  generalize x s.enter = first at hrun
  generalize y s'.enter = second at hrun
  cases hrun with
  | ok hlater hresult hstore =>
      exact .ok hlater hresult (hA.leave hstore)
  | error hlater hshared hstore =>
      exact .error hlater hshared (hA.leave hstore)
  | excused h =>
      exact .excused h

theorem Uncounted.evalAt (hA : A.Uncounted) {i : Interpreter} (hi : i.Ample) (levels : Nat) :
    A.Evaluators (i.evalAt levels) (i.evalAt levels) := by
  induction levels with
  | zero =>
      intro w a b e e' mode _ _ s s' hs
      exact .error (A.later_refl w) (hA.exhausted i.limit) hs
  | succ levels ih =>
      intro w a b e e' mode hscope he
      rw [Interpreter.evalAt_succ, Interpreter.evalAt_succ]
      apply hA.counted
      exact evalWith ih (i.evalAt_onlyQuotes levels) (i.evalAt_onlyQuotes levels) hi hi mode
        hscope he

end Agreement
end ScopeLisp
