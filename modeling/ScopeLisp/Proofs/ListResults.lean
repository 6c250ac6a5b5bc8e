import Mathlib.Logic.Relation
import ScopeLisp.Proofs.Primitives

/-!
# Where lists come from

## Parts of expressions

An item is a part of its list, and so is what stands behind a quote.  Functions
are leaves.

## Results

A list that an invocation gives is evaluated again, so an evaluation gives a
list only when its expression is a quoted one.  Of the builtins the sequence
alone hands on such a value, and a call never does.
-/

namespace ScopeLisp
namespace Expr

/-!
# Parts of expressions

What stands behind a quote among the items of a list lies inside the list.
-/

inductive Child : Expr → Expr → Prop where
  | quoted (e : Expr) : Child e (.quoted e)
  | item {e : Expr} {items : List Expr} (h : e ∈ items) : Child e (.list items)

def Inside : Expr → Expr → Prop :=
  Relation.TransGen Child

theorem Child.size_lt {e e' : Expr} (h : Child e e') : e.size < e'.size := by
  cases h with
  | quoted =>
      rw [size]
      omega
  | item h =>
      have hle := size_le_sizeAll h
      rw [size]
      omega

theorem Inside.size_lt {e e' : Expr} (h : e.Inside e') : e.size < e'.size := by
  induction h with
  | single h =>
      exact h.size_lt
  | tail _ h ih =>
      exact Nat.lt_trans ih h.size_lt

theorem inside_of_quoted_mem {e : Expr} {items : List Expr} (h : .quoted e ∈ items) :
    e.Inside (.list items) :=
  .tail (.single (.quoted e)) (.item h)

end Expr

/-!
# Evaluators

Every case of an evaluation but the quote ends in a settled value.
-/

/-- An evaluator that gives a list for nothing but the quoted list itself. -/
def Evaluator.OnlyQuotes (eval : Evaluator) : Prop :=
  ∀ ⦃scope : ScopeId⦄ ⦃e : Expr⦄ ⦃mode : LookupMode⦄ ⦃s t : Store⦄ ⦃result : Evaluated⦄
    ⦃items : List Expr⦄, eval scope e mode s = .ok result t → result.value = .list items →
      e = .quoted (.list items)

namespace Interpreter

theorem isList_of_settle_eq_ok (i : Interpreter) (eval : Evaluator) {rounds : Nat}
    {start result : Evaluated} {s t : Store} (h : i.settle eval rounds start s = .ok result t) :
    result.value.isList = false := by
  induction rounds generalizing start s with
  | zero =>
      cases hlist : start.value.isList with
      | false =>
          rw [settle_of_isList_eq_false i eval 0 hlist] at h
          cases h
          exact hlist
      | true =>
          obtain ⟨value, scope⟩ := start
          cases value <;> cases hlist
          cases h
  | succ rounds ih =>
      cases hlist : start.value.isList with
      | false =>
          rw [settle_of_isList_eq_false i eval _ hlist] at h
          cases h
          exact hlist
      | true =>
          obtain ⟨value, scope⟩ := start
          cases value <;> cases hlist
          rw [settle_succ_list, EvalM.bind_eq_ok_iff] at h
          obtain ⟨next, s₁, _, hrest⟩ := h
          exact ih hrest

theorem evalWith_onlyQuotes (i : Interpreter) (eval : Evaluator) :
    Evaluator.OnlyQuotes (i.evalWith eval) := by
  intro scope e mode s t result items h hvalue
  have hsettled : ∀ {rounds start s}, i.settle eval rounds start s = .ok result t → False := by
    intro rounds start s h
    have hlist := isList_of_settle_eq_ok i eval h
    rw [hvalue] at hlist
    cases hlist
  cases e with
  | quoted inner =>
      cases h
      rw [← hvalue]
  | atom name =>
      obtain ⟨found, s₁, _, hrest⟩ := EvalM.bind_eq_ok_iff.mp h
      exact (hsettled hrest).elim
  | _ =>
      exact (hsettled h).elim

theorem evalAt_onlyQuotes (i : Interpreter) (levels : Nat) :
    Evaluator.OnlyQuotes (i.evalAt levels) := by
  intro scope e mode s t result items h hvalue
  cases levels with
  | zero =>
      cases h
  | succ levels =>
      rw [evalAt_succ, EvalM.counted_eq_ok_iff] at h
      obtain ⟨s₁, h, _⟩ := h
      exact i.evalWith_onlyQuotes (i.evalAt levels) h hvalue

end Interpreter

/-!
# Invocations

A primitive gives a plain value, and a sequence gives a list only when a quoted
list stands at its end.
-/

section Invocations

variable {eval : Evaluator} {scope : ScopeId} {args : List Expr} {s t : Store}
  {result : Evaluated}

theorem Rule.sweep_plain {σ : Type} {rule : Rule σ} (hrule : rule.Lawful) {state : σ}
    (h : rule.sweep eval scope state args s = .ok result t) :
    result.value.IsPlain ∧ result.scope = scope := by
  induction args generalizing state s with
  | nil =>
      rw [Rule.sweep_nil, EvalM.bind_eq_ok_iff] at h
      obtain ⟨value, s₁, hfinish, hresult⟩ := h
      cases hresult
      cases hvalue : rule.finish state with
      | ok value' =>
          rw [hvalue] at hfinish
          cases hfinish
          exact ⟨hrule.finish_isPlain hvalue, rfl⟩
      | error e =>
          rw [hvalue] at hfinish
          cases hfinish
  | cons arg rest ih =>
      rw [Rule.sweep_cons, EvalM.bind_eq_ok_iff] at h
      obtain ⟨first, s₁, _, hstep⟩ := h
      cases hverdict : rule.step state first.value with
      | next state' =>
          rw [hverdict] at hstep
          exact ih hstep
      | stop value =>
          rw [hverdict] at hstep
          cases hstep
          exact ⟨hrule.stop_isPlain hverdict, rfl⟩
      | fail e =>
          rw [hverdict] at hstep
          cases hstep

theorem unary_plain {name : String} {apply : Expr → Except EvalError Expr}
    (happly : LawfulApplication apply) (h : unary name apply eval scope args s = .ok result t) :
    result.value.IsPlain ∧ result.scope = scope := by
  unfold unary at h
  split at h
  · exact Rule.sweep_plain (Rule.single_lawful happly) h
  · cases h

theorem getLast?_of_evalSequence (heval : eval.OnlyQuotes) {last : Evaluated} {items : List Expr}
    (h : evalSequence eval last args s = .ok result t) (hvalue : result.value = .list items) :
    last.value = .list items ∨ args.getLast? = some (.quoted (.list items)) := by
  rcases List.eq_nil_or_concat args with rfl | ⟨before, arg, rfl⟩
  · cases h
    exact .inl hvalue
  · rw [List.concat_eq_append, evalSequence_append, EvalM.bind_eq_ok_iff] at h
    rcases h with ⟨_, _, _, hlast⟩
    rcases EvalM.bind_eq_ok_iff.mp hlast with ⟨_, _, harg, hdone⟩
    cases hdone
    rw [List.concat_eq_append, List.getLast?_append, heval harg hvalue]
    exact .inr rfl

theorem quoted_mem_of_evalSequence (heval : eval.OnlyQuotes) {last : Evaluated} {items : List Expr}
    (h : evalSequence eval last args s = .ok result t) (hvalue : result.value = .list items) :
    last.value = .list items ∨ .quoted (.list items) ∈ args := by
  cases getLast?_of_evalSequence heval h hvalue with
  | inl hlast =>
      exact .inl hlast
  | inr hquoted =>
      exact .inr (List.mem_of_getLast? hquoted)

theorem bindingsForm_value (h : bindingsForm eval scope args s = .ok result t) :
    result.value = .null := by
  unfold bindingsForm at h
  split at h
  · simp only [EvalM.bind_eq_ok_iff] at h
    obtain ⟨inner, s₁, _, _, s₂, _, hresult⟩ := h
    cases hresult
    rfl
  · cases h
  · cases h

theorem defineForm_value (eval : Evaluator) (h : defineForm eval scope args s = .ok result t) :
    ∃ identity params body, result.value = .lambda identity params body := by
  unfold defineForm at h
  simp only [EvalM.bind_eq_ok_iff] at h
  obtain ⟨⟨name, params, body⟩, s₁, _, identity, s₂, _, inner, s₃, _, _, s₄, _, hresult⟩ := h
  cases hresult
  exact ⟨identity, params, body, rfl⟩

theorem assertionForm_plain (h : assertionForm eval scope args s = .ok result t) :
    result.value.IsPlain ∧ result.scope = scope := by
  cases args with
  | nil =>
      cases h
  | cons test rest =>
      obtain ⟨tested, s₁, _, htested⟩ := EvalM.bind_eq_ok_iff.mp h
      split at htested
      · cases htested
        exact ⟨.truth, rfl⟩
      · split at htested
        · cases htested
        · obtain ⟨wanted, s₂, _, hwanted⟩ := EvalM.bind_eq_ok_iff.mp htested
          split at hwanted
          · split at hwanted
            · obtain ⟨text, s₃, _, hfailed⟩ := EvalM.bind_eq_ok_iff.mp hwanted
              cases hfailed
            · cases hwanted
          · cases hwanted

/-!
# Builtins and calls

A builtin gives a list only when the list stands quoted among its arguments.  A
call gives no list, since a body is never a quote.
-/

/-- The builtins that may lead evaluation to another scope. -/
def Builtin.isLeading : Builtin → Bool
  | .sequence | .define | .bindings => true
  | _ => false

theorem Builtin.plain_of_body {operation : Builtin} (hstays : operation.isLeading = false)
    (h : operation.body eval scope args s = .ok result t) :
    result.value.IsPlain ∧ result.scope = scope := by
  cases operation with
  | sequence => cases hstays
  | define => cases hstays
  | bindings => cases hstays
  | assertion => exact assertionForm_plain h
  | arithmetic op => exact Rule.sweep_plain (Rule.fold_lawful _ _) h
  | comparison op => exact Rule.sweep_plain (Rule.chain_lawful _ _) h
  | increment => exact unary_plain (shiftBy_lawful _ _) h
  | decrement => exact unary_plain (shiftBy_lawful _ _) h
  | conjunction => exact Rule.sweep_plain (Rule.all_lawful _) h
  | disjunction => exact Rule.sweep_plain (Rule.any_lawful _) h
  | negation => exact unary_plain (negate_lawful _) h

/-- A builtin gives a list only when the list stands quoted among its arguments. -/
theorem Builtin.quoted_mem_of_body (heval : eval.OnlyQuotes) {operation : Builtin}
    {items : List Expr} (h : operation.body eval scope args s = .ok result t)
    (hvalue : result.value = .list items) : .quoted (.list items) ∈ args := by
  cases operation with
  | sequence =>
      cases quoted_mem_of_evalSequence heval h hvalue with
      | inl hnull =>
          cases hnull
      | inr hmem =>
          exact hmem
  | define =>
      obtain ⟨identity, params, body, hlambda⟩ := defineForm_value eval h
      rw [hlambda] at hvalue
      cases hvalue
  | bindings =>
      rw [bindingsForm_value h] at hvalue
      cases hvalue
  | _ =>
      have hlist := (Builtin.plain_of_body rfl h).1.isList_eq_false
      rw [hvalue] at hlist
      cases hlist

theorem Interpreter.call_scope {name : String} {home : ScopeId} {params : List String}
    {body : List Expr}
    (h : Interpreter.call eval scope name home params body args s = .ok result t) :
    result.scope = scope := by
  unfold Interpreter.call at h
  split at h
  · cases h
  · simp only [EvalM.bind_eq_ok_iff] at h
    obtain ⟨inner, s₁, _, _, s₂, _, called, s₃, _, hresult⟩ := h
    cases hresult
    rfl

theorem Interpreter.isList_of_call (heval : eval.OnlyQuotes) {name : String} {home : ScopeId}
    {params : List String} {body : List Expr}
    (h : Interpreter.call eval scope name home params body args s = .ok result t) :
    result.value.isList = false := by
  unfold Interpreter.call at h
  split at h
  · cases h
  · simp only [EvalM.bind_eq_ok_iff] at h
    obtain ⟨inner, s₁, _, _, s₂, _, called, s₃, hcalled, hresult⟩ := h
    cases hresult
    cases hvalue : called.value with
    | list items =>
        cases heval hcalled hvalue
    | _ =>
        rfl

end Invocations

def Evaluated.Fits (rounds : Nat) (x : Evaluated) : Prop :=
  ∀ items, x.value = .list items → (Expr.list items).size ≤ rounds

theorem Evaluated.fits_of_quoted_mem {rounds : Nat} {x : Evaluated} {items : List Expr}
    (hsize : (Expr.list items).size ≤ rounds + 1)
    (hmem : ∀ next, x.value = .list next → .quoted (.list next) ∈ items) : x.Fits rounds := by
  intro next hnext
  have hlt := (Expr.inside_of_quoted_mem (hmem next hnext)).size_lt
  omega

end ScopeLisp
