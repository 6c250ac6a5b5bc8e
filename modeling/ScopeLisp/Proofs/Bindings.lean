import ScopeLisp.Proofs.AppendOnly
import ScopeLisp.Proofs.Isolation
import ScopeLisp.Proofs.Termination

/-!
# Bindings

## One after the other

A binding form and a call bind names in a new scope, each to the value of an
expression in the scope of the call.  Such a loop goes from pair to pair: the
expression is evaluated first, and only then is the name found to be bound
already, or bound.

## Lists

An evaluation gives a list only for the quoted list itself.  So a name is bound
to a list only if the list stands quoted where the name gets its value.

## Calls

A call from the home of a function is a binding form on its parameters and
arguments, followed by its body.
-/

namespace ScopeLisp

/-!
# Loops of bindings

A loop is split by what becomes of its first pair: the expression fails, its
name is bound already, or it is bound now.
-/

/-- A loop of bindings, with what it binds in turn and how it ends. -/
inductive BindsInTurn (eval : Evaluator) (scope inner : ScopeId) :
    List (Except EvalError (String × Expr)) → Store → List (String × Expr) →
      EStateM.Result EvalError Store Unit → Prop where
  | done (s : Store) : BindsInTurn eval scope inner [] s [] (.ok () s)
  | malformed (error : EvalError) (rest : List (Except EvalError (String × Expr))) (s : Store) :
      BindsInTurn eval scope inner (.error error :: rest) s [] (.error error s)
  | failed {name : String} {e : Expr} {s t : Store} {error : EvalError}
      (h : eval scope e .nearest s = .error error t)
      (rest : List (Except EvalError (String × Expr))) :
      BindsInTurn eval scope inner (.ok (name, e) :: rest) s [] (.error error t)
  | repeated {name : String} {e : Expr} {s t : Store} {result : Evaluated}
      (h : eval scope e .nearest s = .ok result t) (hbound : t.forest.binds inner name = true)
      (rest : List (Except EvalError (String × Expr))) :
      BindsInTurn eval scope inner (.ok (name, e) :: rest) s [] (.error (.rebind name) t)
  | bound {name : String} {e : Expr} {s t : Store} {result : Evaluated}
      {rest : List (Except EvalError (String × Expr))} {later : List (String × Expr)}
      {outcome : EStateM.Result EvalError Store Unit}
      (h : eval scope e .nearest s = .ok result t) (hfree : t.forest.binds inner name = false)
      (hrest : BindsInTurn eval scope inner rest
        { t with forest := t.forest.set inner name result.value } later outcome) :
      BindsInTurn eval scope inner (.ok (name, e) :: rest) s ((name, result.value) :: later) outcome

section Loops

variable {eval : Evaluator} {scope inner : ScopeId}
  {pairs : List (Except EvalError (String × Expr))} {s : Store} {bound : List (String × Expr)}
  {outcome : EStateM.Result EvalError Store Unit}

theorem bindEach_cons_of_error {name : String} {e : Expr} {t : Store} {error : EvalError}
    (h : eval scope e .nearest s = .error error t)
    (rest : List (Except EvalError (String × Expr))) :
    bindEach eval scope inner (.ok (name, e) :: rest) s = .error error t :=
  EvalM.bind_of_eq_error h _

theorem bindEach_cons_of_bound {name : String} {e : Expr} {t : Store} {result : Evaluated}
    (h : eval scope e .nearest s = .ok result t) (hbound : t.forest.binds inner name = true)
    (rest : List (Except EvalError (String × Expr))) :
    bindEach eval scope inner (.ok (name, e) :: rest) s = .error (.rebind name) t := by
  have hname : EvalM.bindName inner name result.value t = .error (.rebind name) t := if_pos hbound
  exact (EvalM.bind_of_eq_ok h _).trans (EvalM.bind_of_eq_error hname _)

theorem bindEach_cons_of_free {name : String} {e : Expr} {t : Store} {result : Evaluated}
    (h : eval scope e .nearest s = .ok result t) (hfree : t.forest.binds inner name = false)
    (rest : List (Except EvalError (String × Expr))) :
    bindEach eval scope inner (.ok (name, e) :: rest) s =
      bindEach eval scope inner rest { t with forest := t.forest.set inner name result.value } := by
  have hname : EvalM.bindName inner name result.value t =
      .ok () { t with forest := t.forest.set inner name result.value } :=
    if_neg (ne_true_of_eq_false hfree)
  exact (EvalM.bind_of_eq_ok h _).trans (EvalM.bind_of_eq_ok hname _)

theorem exists_bindsInTurn (eval : Evaluator) (scope inner : ScopeId)
    (pairs : List (Except EvalError (String × Expr))) (s : Store) :
    ∃ bound, BindsInTurn eval scope inner pairs s bound (bindEach eval scope inner pairs s) := by
  induction pairs generalizing s with
  | nil =>
      exact ⟨[], .done s⟩
  | cons pair rest ih =>
      cases pair with
      | error error =>
          exact ⟨[], .malformed error rest s⟩
      | ok binding =>
          rcases binding with ⟨name, e⟩
          cases hrun : eval scope e .nearest s with
          | error error t =>
              rw [bindEach_cons_of_error hrun]
              exact ⟨[], .failed hrun rest⟩
          | ok result t =>
              cases hbinds : t.forest.binds inner name with
              | true =>
                  rw [bindEach_cons_of_bound hrun hbinds]
                  exact ⟨[], .repeated hrun hbinds rest⟩
              | false =>
                  rw [bindEach_cons_of_free hrun hbinds]
                  rcases ih { t with forest := t.forest.set inner name result.value } with
                    ⟨later, hlater⟩
                  exact ⟨(name, result.value) :: later, .bound hrun hbinds hlater⟩

/--
In a scope that no evaluation touches, a loop leaves what it has bound.  Scopes
keep their bindings latest first.
-/
theorem BindsInTurn.get?_inner
    (heval : ∀ e s, (EvalM.storeAfter (eval scope e .nearest s)).forest.Extends s.forest)
    (h : BindsInTurn eval scope inner pairs s bound outcome) {found : Scope}
    (hfound : s.forest.get? inner = some found) :
    (EvalM.storeAfter outcome).forest.get? inner =
      some { found with bindings := bound.reverse ++ found.bindings } := by
  have hkept {e : Expr} {s : Store} {found : Scope} (hfound : s.forest.get? inner = some found) :
      (EvalM.storeAfter (eval scope e .nearest s)).forest.get? inner = some found := by
    rw [(heval e s).2 inner (Forest.index_lt_of_get? hfound), hfound]
  induction h generalizing found with
  | done s =>
      exact hfound
  | malformed error rest s =>
      exact hfound
  | @failed name e s t error hrun rest =>
      have hlast := hkept (e := e) hfound
      rw [hrun] at hlast
      exact hlast
  | @repeated name e s t result hrun hbound rest =>
      have hlast := hkept (e := e) hfound
      rw [hrun] at hlast
      exact hlast
  | @bound name e s t result rest later outcome hrun hfree hrest ih =>
      have hnext := hkept (e := e) hfound
      rw [hrun] at hnext
      have hset : (t.forest.set inner name result.value).get? inner =
          some (found.insert name result.value) := by
        rw [Forest.get?_set, if_pos rfl]
        exact congrArg (Option.map _) hnext
      rw [ih hset]
      simp [Scope.insert]

theorem bindingsForm_list (eval : Evaluator) (scope : ScopeId) (pairs : List Expr) (s : Store) :
    bindingsForm eval scope [.list pairs] s =
      (bindEach eval scope s.forest.fresh (pairs.map bindingPair) >>= fun _ =>
        pure ⟨.null, s.forest.fresh⟩) (s.addChild scope) := rfl

theorem Interpreter.call_of_length_le (eval : Evaluator) (scope : ScopeId) (name : String)
    (home : ScopeId) {params : List String} (body : List Expr) {args : List Expr}
    (hargs : params.length ≤ args.length) (s : Store) :
    call eval scope name home params body args s =
      (bindEach eval scope s.forest.fresh ((params.zip args).map .ok) >>= fun _ =>
        eval s.forest.fresh (.list body) .nearest >>= fun result =>
          pure ⟨result.value, scope⟩) (s.addChild home) := by
  rw [call, if_neg (Nat.not_lt_of_le hargs)]
  rfl

end Loops

/-!
# Lists

A loop binds a list only where the list stands quoted as the expression of its
name.  What comes after the loop binds nothing in the scope that was opened.
-/

def ListsStandQuoted (pairs : List (Except EvalError (String × Expr)))
    (bound : List (String × Expr)) : Prop :=
  List.Forall₂ (fun pair binding => ∃ e, pair = .ok (binding.1, e) ∧
    ∀ items, binding.2 = .list items → e = .quoted (.list items)) (pairs.take bound.length) bound

theorem BindsInTurn.listsStandQuoted {eval : Evaluator} (heval : eval.OnlyQuotes)
    {scope inner : ScopeId} {pairs : List (Except EvalError (String × Expr))} {s : Store}
    {bound : List (String × Expr)} {outcome : EStateM.Result EvalError Store Unit}
    (h : BindsInTurn eval scope inner pairs s bound outcome) : ListsStandQuoted pairs bound := by
  induction h with
  | bound hrun hfree hrest ih =>
      exact .cons ⟨_, rfl, fun items hvalue => heval hrun hvalue⟩ ih
  | _ =>
      exact .nil

theorem Forest.exists_get?_addChild_fresh (f : Forest) (parent : ScopeId) :
    ∃ outer, (f.addChild parent).get? f.fresh = some ⟨outer, []⟩ := by
  unfold addChild
  split
  · exact ⟨some parent, (get?_push ..).trans (if_pos rfl)⟩
  · exact ⟨none, (get?_addRoot ..).trans (if_pos rfl)⟩

namespace Interpreter

/--
What a form binds in a scope that it opens: a loop runs through its pairs, and
lists stand quoted in them.  If natives bind nothing themselves, a later store has
exactly these bindings in the scope.
-/
def BindsFromQuotes (i : Interpreter) (levels : Nat) (scope parent : ScopeId)
    (pairs : List (Except EvalError (String × Expr))) (s after : Store) : Prop :=
  ∃ bound,
    BindsInTurn (i.evalAt levels) scope s.forest.fresh pairs (s.addChild parent) bound
      (bindEach (i.evalAt levels) scope s.forest.fresh pairs (s.addChild parent)) ∧
    ListsStandQuoted pairs bound ∧
    ((∀ key, (i.host key).BindsNothing) →
      ∃ outer, after.forest.get? s.forest.fresh = some ⟨outer, bound.reverse⟩)

theorem bindsFromQuotes (i : Interpreter) (levels : Nat) (scope parent : ScopeId)
    (pairs : List (Except EvalError (String × Expr))) (s : Store) {after : Store}
    (hafter : (∀ key, (i.host key).BindsNothing) → after.forest.Extends (EvalM.storeAfter
      (bindEach (i.evalAt levels) scope s.forest.fresh pairs (s.addChild parent))).forest) :
    i.BindsFromQuotes levels scope parent pairs s after := by
  rcases exists_bindsInTurn (i.evalAt levels) scope s.forest.fresh pairs (s.addChild parent) with
    ⟨bound, hloop⟩
  refine ⟨bound, hloop, hloop.listsStandQuoted (i.evalAt_onlyQuotes levels), ?_⟩
  intro hi
  rcases s.forest.exists_get?_addChild_fresh parent with ⟨outer, hfresh⟩
  have hinner := hloop.get?_inner (fun e s => evalAt_extends hi levels scope e .nearest s) hfresh
  refine ⟨outer, ?_⟩
  rw [(hafter hi).2 s.forest.fresh, hinner]
  · simp
  · exact Forest.index_lt_of_get? hinner

theorem bindingsForm_bindsFromQuotes (i : Interpreter) (levels : Nat) (scope : ScopeId)
    (pairs : List Expr) (s : Store) :
    i.BindsFromQuotes levels scope scope (pairs.map bindingPair) s
      (EvalM.storeAfter (bindingsForm (i.evalAt levels) scope [.list pairs] s)) := by
  apply bindsFromQuotes
  intro _
  rw [bindingsForm_list]
  cases hloop : bindEach (i.evalAt levels) scope s.forest.fresh (pairs.map bindingPair)
      (s.addChild scope) with
  | ok _ t =>
      rw [EvalM.bind_of_eq_ok hloop]
      exact t.forest.extends_refl
  | error error t =>
      rw [EvalM.bind_of_eq_error hloop]
      exact t.forest.extends_refl

theorem call_bindsFromQuotes (i : Interpreter) (levels : Nat) (scope : ScopeId) (name : String)
    (home : ScopeId) (params : List String) (body : List Expr) {args : List Expr}
    (hargs : params.length ≤ args.length) (s : Store) :
    i.BindsFromQuotes levels scope home ((params.zip args).map .ok) s
      (EvalM.storeAfter (call (i.evalAt levels) scope name home params body args s)) := by
  apply bindsFromQuotes
  intro hi
  rw [call_of_length_le _ _ _ _ _ hargs]
  cases hloop : bindEach (i.evalAt levels) scope s.forest.fresh ((params.zip args).map .ok)
      (s.addChild home) with
  | error error t =>
      rw [EvalM.bind_of_eq_error hloop]
      exact t.forest.extends_refl
  | ok _ t =>
      rw [EvalM.bind_of_eq_ok hloop]
      have hbody := evalAt_extends hi levels s.forest.fresh (.list body) .nearest t
      cases hrun : i.evalAt levels s.forest.fresh (.list body) .nearest t with
      | error error u =>
          rw [EvalM.bind_of_eq_error hrun]
          rw [hrun] at hbody
          exact hbody
      | ok result u =>
          rw [EvalM.bind_of_eq_ok hrun]
          rw [hrun] at hbody
          exact hbody

theorem scope_of_evalAt_quoted (i : Interpreter) {levels : Nat} {scope : ScopeId} {inner : Expr}
    {mode : LookupMode} {s t : Store} {result : Evaluated}
    (h : i.evalAt levels scope (.quoted inner) mode s = .ok result t) : result.scope = scope := by
  cases levels with
  | zero =>
      cases h
  | succ levels =>
      cases h
      rfl

/--
Only a quote gives a list.  With any natives and in any store, an evaluation that
gives a list is that of the quoted list itself, and it goes on in the same scope.
So a binding form and a call bind a name to a list only where the list stands
quoted, and a call never gives a list.
-/
theorem lists_only_from_quotes (i : Interpreter) (levels : Nat) (scope : ScopeId) (s : Store) :
    (∀ e mode result t items, i.evalAt levels scope e mode s = .ok result t →
      result.value = .list items → e = .quoted (.list items) ∧ result.scope = scope) ∧
    (∀ pairs, i.BindsFromQuotes levels scope scope (pairs.map bindingPair) s
      (EvalM.storeAfter (bindingsForm (i.evalAt levels) scope [.list pairs] s))) ∧
    ∀ name home params body args,
      (params.length ≤ args.length →
        i.BindsFromQuotes levels scope home ((params.zip args).map .ok) s
          (EvalM.storeAfter (call (i.evalAt levels) scope name home params body args s))) ∧
      ∀ result t, call (i.evalAt levels) scope name home params body args s = .ok result t →
        result.value.isList = false := by
  refine ⟨?_, fun pairs => i.bindingsForm_bindsFromQuotes levels scope pairs s, ?_⟩
  · intro e mode result t items h hvalue
    have hquoted := i.evalAt_onlyQuotes levels h hvalue
    rw [hquoted] at h
    exact ⟨hquoted, i.scope_of_evalAt_quoted h⟩
  · intro name home params body args
    constructor
    · intro hargs
      exact i.call_bindsFromQuotes levels scope name home params body hargs s
    · intro result t h
      exact isList_of_call (i.evalAt_onlyQuotes levels) h

/-- A scope with two natives: `f` gives its first argument, and `n` its arguments as a list. -/
def listing : Store :=
  Operation.run (.withHost 10) Store.empty [.addRoot, .register Store.first "f" (.host "first"),
    .register Store.first "n" (.host "list")]

/-- The bindings of `(let ((x '(f "a")) (y (n f "a"))))`, of which the first alone binds a list. -/
def quotedAndListed : List Expr :=
  let code : List Expr := [.atom "f", .str "a"]
  [.list [.atom "x", .quoted (.list code)], .list [.atom "y", .list (.atom "n" :: code)]]

theorem lists_only_from_quotes_listing :
    let code : Expr := .list [.atom "f", .str "a"]
    let after := EvalM.storeAfter
      (bindingsForm ((withHost 10).evalAt 10) Store.first [.list quotedAndListed] listing)
    (∃ result t, (withHost 10).evalAt 10 Store.first (.quoted code) .expanding listing =
      .ok result t ∧ result.value = code ∧ result.scope = Store.first) ∧
    (∀ key, ((withHost 10).host key).BindsNothing) ∧
    after.forest.local? ⟨1⟩ "x" = some code ∧
    after.forest.local? ⟨1⟩ "y" = some (.str "a") ∧
    (withHost 10).BindsFromQuotes 10 Store.first Store.first (quotedAndListed.map bindingPair)
      listing after := by
  intro code after
  have honly := lists_only_from_quotes (.withHost 10) 10 Store.first listing
  have hquoted : ∃ result t, (withHost 10).evalAt 10 Store.first (.quoted code) .expanding listing =
      .ok result t ∧ result.value = code := ⟨_, _, rfl, rfl⟩
  have hlist : after.forest.local? ⟨1⟩ "x" = some code := rfl
  have htext : after.forest.local? ⟨1⟩ "y" = some (.str "a") := rfl
  rcases hquoted with ⟨result, t, hrun, hvalue⟩
  exact ⟨⟨result, t, hrun, hvalue, (honly.1 _ _ _ _ _ hrun hvalue).2⟩, withHost_bindsNothing 10,
    hlist, htext, honly.2.1 quotedAndListed⟩

/-!
# Calls

Parameters and arguments can be written as the pairs of a binding form.
-/

def parameterPairs (params : List String) (args : List Expr) : List Expr :=
  List.zipWith (fun param arg => .list [.atom param, arg]) params args

theorem map_bindingPair_parameterPairs (params : List String) (args : List Expr) :
    (parameterPairs params args).map bindingPair = (params.zip args).map .ok := by
  rw [parameterPairs, List.map_zipWith, List.zip, List.map_zipWith]
  rfl

/-!
# A call as a binding form

The body of a function is evaluated where its parameters are bound, and
evaluation goes on in the scope of the call.
-/

def bindThenEvaluate (eval : Evaluator) (scope : ScopeId) (params : List String)
    (body args : List Expr) : EvalM Evaluated := do
  let opened ← bindingsForm eval scope [.list (parameterPairs params args)]
  eval opened.scope (.list body) .nearest

def backIn (scope : ScopeId) :
    EStateM.Result EvalError Store Evaluated → EStateM.Result EvalError Store Evaluated
  | .ok result t => .ok ⟨result.value, scope⟩ t
  | .error error t => .error error t

theorem bind_backIn (scope : ScopeId) (x : EvalM Evaluated) (s : Store) :
    (x >>= fun result => pure ⟨result.value, scope⟩ : EvalM Evaluated) s = backIn scope (x s) := by
  cases hrun : x s with
  | ok result t =>
      exact EvalM.bind_of_eq_ok hrun _
  | error error t =>
      exact EvalM.bind_of_eq_error hrun _

theorem call_eq_backIn_bindThenEvaluate (eval : Evaluator) (scope : ScopeId) (name : String)
    {params : List String} (body : List Expr) {args : List Expr}
    (hargs : params.length ≤ args.length) (s : Store) :
    call eval scope name scope params body args s =
      backIn scope (bindThenEvaluate eval scope params body args s) := by
  rw [call, if_neg (Nat.not_lt_of_le hargs), ← bind_backIn]
  simp only [bindThenEvaluate, bindingsForm, map_bindingPair_parameterPairs, bind_assoc, pure_bind]

/--
A call is a binding form and a body.  From the home of a function, on at least as
many arguments as it has parameters, it has the outcome of binding the parameters
to the arguments and evaluating the body in the scope that this opens: the same
value and store, or the same error.  Only the scope in which evaluation goes on is
that of the call.  Call and binding form run through one loop, which opens the
scope first, evaluates each argument in the scope of the call, finds a repeated
parameter after evaluating its argument, and leaves further arguments alone.  The
list that calls the function is this call, counted as one evaluation.
-/
theorem call_is_binding_and_body (scope : ScopeId) (name : String) {params : List String}
    (body : List Expr) {args : List Expr} (hargs : params.length ≤ args.length) :
    (∀ (eval : Evaluator) (s : Store), call eval scope name scope params body args s =
      backIn scope (bindThenEvaluate eval scope params body args s)) ∧
    (∀ (eval : Evaluator) (s : Store), ∃ bound outcome,
      BindsInTurn eval scope s.forest.fresh ((params.zip args).map .ok) (s.addChild scope) bound
        outcome ∧
      match outcome with
      | .error error t =>
          bindingsForm eval scope [.list (parameterPairs params args)] s = .error error t ∧
            call eval scope name scope params body args s = .error error t
      | .ok _ t =>
          bindingsForm eval scope [.list (parameterPairs params args)] s =
              .ok ⟨.null, s.forest.fresh⟩ t ∧
            call eval scope name scope params body args s =
              backIn scope (eval s.forest.fresh (.list body) .nearest t)) ∧
    ∀ (i : Interpreter) (levels : Nat) (mode : LookupMode) (s : Store) (identity : Identity),
      i.Ample → identity.home = scope →
      s.lookup scope name .nearest = some (.lambda identity params body) →
        i.evalAt (levels + 1) scope (.list (.atom name :: args)) mode s =
          EvalM.ended (backIn scope
            (bindThenEvaluate (i.evalAt levels) scope params body args s.enter)) := by
  refine ⟨?_, ?_, ?_⟩
  · intro eval s
    exact call_eq_backIn_bindThenEvaluate eval scope name body hargs s
  · intro eval s
    rcases exists_bindsInTurn eval scope s.forest.fresh ((params.zip args).map .ok)
      (s.addChild scope) with ⟨bound, hloop⟩
    refine ⟨bound, _, hloop, ?_⟩
    rw [bindingsForm_list, map_bindingPair_parameterPairs, call_of_length_le _ _ _ _ _ hargs]
    cases hrun : bindEach eval scope s.forest.fresh ((params.zip args).map .ok)
        (s.addChild scope) with
    | error error t =>
        exact ⟨EvalM.bind_of_eq_error hrun _, EvalM.bind_of_eq_error hrun _⟩
    | ok _ t =>
        refine ⟨EvalM.bind_of_eq_ok hrun _, ?_⟩
        rw [EvalM.bind_of_eq_ok hrun, bind_backIn]
  · intro i levels mode s identity hi hhome hname
    rw [evalAt_call hi hname, hhome, EvalM.counted_eq_ended,
      call_eq_backIn_bindThenEvaluate _ scope name body hargs]

/-- A scope with `(defn f (x x) (do x))`, which a host binds to `g` in the home of the function. -/
def repeating : Store :=
  Operation.run (limited 10) Store.empty
    [.addRoot, .register Store.first "defn" (.builtin .define),
    .execute 10 Store.first (.list [.atom "defn", .atom "f", .list [.atom "x", .atom "x"],
      .list [.atom "do", .atom "x"]]) .nearest,
    .bind Store.first "g" (.lambda ⟨1, Store.first⟩ ["x", "x"] [.atom "do", .atom "x"])]

theorem call_is_binding_and_body_repeating :
    let params := ["x", "x"]
    let body : List Expr := [.atom "do", .atom "x"]
    let args : List Expr := [.str "a", .str "b", .list []]
    params.length ≤ args.length ∧
    repeating.lookup ⟨1⟩ "f" .nearest = some (.lambda ⟨1, Store.first⟩ params body) ∧
    repeating.lookup Store.first "g" .nearest = some (.lambda ⟨1, Store.first⟩ params body) ∧
    ∃ t, bindThenEvaluate ((limited 10).evalAt 2) Store.first params body args repeating.enter =
        .error (.rebind "x") t ∧
      (limited 10).evalAt 3 Store.first (.list (.atom "g" :: args)) .nearest repeating =
        .error (.rebind "x") t.leave := by
  intro params body args
  have hargs : params.length ≤ args.length := by
    decide
  have hname : repeating.lookup Store.first "g" .nearest =
      some (.lambda ⟨1, Store.first⟩ params body) := rfl
  have hbinding : ∃ t, bindThenEvaluate ((limited 10).evalAt 2) Store.first params body args
      repeating.enter = .error (.rebind "x") t := ⟨_, rfl⟩
  refine ⟨hargs, rfl, hname, ?_⟩
  rcases hbinding with ⟨t, hbinding⟩
  refine ⟨t, hbinding, ?_⟩
  have hcall := (call_is_binding_and_body Store.first "g" body hargs).2.2 (limited 10) 2 .nearest
    repeating ⟨1, Store.first⟩ (limited_ample 10) rfl hname
  rw [hcall, hbinding]
  rfl

end Interpreter
end ScopeLisp
