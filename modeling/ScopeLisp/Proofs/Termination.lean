import ScopeLisp.Proofs.DepthLimit

/-!
# Evaluation ends

## The loop

An evaluation holds an expression and replaces it by what it gives as long as
that is a list.  The loop itself has no limit.  It ends because each list lies
inside the list that gave it, so it goes on for no more rounds than the first
list has nodes.

## Nested evaluations

The evaluations that a loop asks for are one level deeper, and the levels are
limited.  Together this makes every evaluation with the builtins end.
-/

namespace ScopeLisp

/-!
# The loop without bound

There is no bound on the number of expressions that a loop holds.  It goes one
way only.
-/

def EvalM.ended {α : Type} : EStateM.Result EvalError Store α → EStateM.Result EvalError Store α
  | .ok a s => .ok a s.leave
  | .error e s => .error e s.leave

theorem EvalM.counted_eq_ended {α : Type} (act : EvalM α) (s : Store) :
    EvalM.counted act s = EvalM.ended (act s.enter) := by
  unfold EvalM.counted
  cases act s.enter <;> rfl

def Expr.isConstant : Expr → Bool
  | .atom _ | .quoted _ | .list _ => false
  | _ => true

namespace Interpreter

/--
A loop that ends, with the expressions that it holds one after the other.  There
is no bound on their number.
-/
inductive Loop (i : Interpreter) (eval : Evaluator) (mode : LookupMode) :
    ScopeId → Expr → Store → List Expr → EStateM.Result EvalError Store Evaluated → Prop where
  | quoted (scope : ScopeId) (inner : Expr) (s : Store) :
      Loop i eval mode scope (.quoted inner) s [.quoted inner] (.ok ⟨inner, scope⟩ s)
  | constant {e : Expr} (scope : ScopeId) (s : Store) (h : e.isConstant = true) :
      Loop i eval mode scope e s [e] (.ok ⟨e, scope⟩ s)
  | atom {scope : ScopeId} {name : String} {s : Store}
      (h : ((s.lookup scope name mode).getD .null).isList = false) :
      Loop i eval mode scope (.atom name) s [.atom name]
        (.ok ⟨(s.lookup scope name mode).getD .null, scope⟩ s)
  /-- A name bound to a list is replaced by it. -/
  | code {scope : ScopeId} {name : String} {s : Store} {items held : List Expr}
      {outcome : EStateM.Result EvalError Store Evaluated}
      (h : s.lookup scope name mode = some (.list items))
      (hnext : Loop i eval mode scope (.list items) s held outcome) :
      Loop i eval mode scope (.atom name) s (.atom name :: held) outcome
  | failure {scope : ScopeId} {items : List Expr} {s t : Store} {e : EvalError}
      (h : i.invoke eval scope items s = .error e t) :
      Loop i eval mode scope (.list items) s [.list items] (.error e t)
  | result {scope : ScopeId} {items : List Expr} {s t : Store} {result : Evaluated}
      (h : i.invoke eval scope items s = .ok result t) (hlist : result.value.isList = false) :
      Loop i eval mode scope (.list items) s [.list items] (.ok result t)
  /-- A list that gives a list is replaced by it, in the scope that goes with it. -/
  | again {scope scope' : ScopeId} {items items' held : List Expr} {s t : Store}
      {outcome : EStateM.Result EvalError Store Evaluated}
      (h : i.invoke eval scope items s = .ok ⟨.list items', scope'⟩ t)
      (hnext : Loop i eval mode scope' (.list items') t held outcome) :
      Loop i eval mode scope (.list items) s (.list items :: held) outcome

theorem Loop.unique {i : Interpreter} {eval : Evaluator} {mode : LookupMode} {scope : ScopeId}
    {e : Expr} {s : Store} {held held' : List Expr}
    {outcome outcome' : EStateM.Result EvalError Store Evaluated}
    (h : i.Loop eval mode scope e s held outcome)
    (h' : i.Loop eval mode scope e s held' outcome') : held' = held ∧ outcome' = outcome := by
  induction h generalizing held' with
  | quoted scope inner s =>
      cases h' with
      | quoted =>
          exact ⟨rfl, rfl⟩
      | constant _ _ hconstant =>
          cases hconstant
  | constant scope s hconstant =>
      cases h' with
      | constant =>
          exact ⟨rfl, rfl⟩
      | _ =>
          cases hconstant
  | atom hlist =>
      cases h' with
      | constant _ _ hconstant =>
          cases hconstant
      | atom =>
          exact ⟨rfl, rfl⟩
      | code hfound =>
          rw [hfound] at hlist
          cases hlist
  | code hfound _ ih =>
      cases h' with
      | constant _ _ hconstant =>
          cases hconstant
      | atom hlist =>
          rw [hfound] at hlist
          cases hlist
      | code hfound' hnext =>
          rw [hfound] at hfound'
          cases hfound'
          obtain ⟨rfl, rfl⟩ := ih hnext
          exact ⟨rfl, rfl⟩
  | failure hrun =>
      cases h' with
      | constant _ _ hconstant =>
          cases hconstant
      | failure hrun' =>
          rw [hrun] at hrun'
          cases hrun'
          exact ⟨rfl, rfl⟩
      | result hrun' =>
          rw [hrun] at hrun'
          cases hrun'
      | again hrun' =>
          rw [hrun] at hrun'
          cases hrun'
  | result hrun hlist =>
      cases h' with
      | constant _ _ hconstant =>
          cases hconstant
      | failure hrun' =>
          rw [hrun] at hrun'
          cases hrun'
      | result hrun' =>
          rw [hrun] at hrun'
          cases hrun'
          exact ⟨rfl, rfl⟩
      | again hrun' =>
          rw [hrun] at hrun'
          cases hrun'
          cases hlist
  | again hrun _ ih =>
      cases h' with
      | constant _ _ hconstant =>
          cases hconstant
      | failure hrun' =>
          rw [hrun] at hrun'
          cases hrun'
      | result hrun' hlist =>
          rw [hrun] at hrun'
          cases hrun'
          cases hlist
      | again hrun' hnext =>
          rw [hrun] at hrun'
          cases hrun'
          obtain ⟨rfl, rfl⟩ := ih hnext
          exact ⟨rfl, rfl⟩

/--
An evaluation that ends.  It fails at the limit, or its loop ends, where all
evaluations one level deeper end.
-/
inductive Ends (i : Interpreter) : ScopeId → Expr → LookupMode → Store →
    EStateM.Result EvalError Store Evaluated → Prop where
  | limit {s : Store} (scope : ScopeId) (e : Expr) (mode : LookupMode) (h : i.limit ≤ s.inFlight) :
      Ends i scope e mode s (.error (.stackExhausted i.limit) s)
  | loop {scope : ScopeId} {e : Expr} {mode : LookupMode} {s : Store} {held : List Expr}
      {outcome : EStateM.Result EvalError Store Evaluated} (eval : Evaluator)
      (h : s.inFlight < i.limit)
      (hinside : ∀ scope e mode t, t.Closed → scope.Within t.extent → e.Within t.extent →
        t.inFlight = s.inFlight + 1 → Ends i scope e mode t (eval scope e mode t))
      (hloop : i.Loop eval mode scope e s.enter held outcome) :
      Ends i scope e mode s (EvalM.ended outcome)

end Interpreter

/-!
# Lists shrink

Each list is followed by a list inside it, so there are no more lists than the
first one has nodes.
-/

/-- Expressions of which each list is followed by a list inside it, if by anything. -/
def Shrinking (held : List Expr) : Prop :=
  held.IsChain fun e next => e.isList = true → next.isList = true ∧ next.Inside e

theorem Shrinking.length_le {items : List Expr} {held : List Expr}
    (h : Shrinking (.list items :: held)) : held.length + 1 ≤ (Expr.list items).size := by
  induction held generalizing items with
  | nil =>
      exact Expr.size_pos _
  | cons next rest ih =>
      obtain ⟨hnext, hrest⟩ := List.isChain_cons_cons.mp h
      obtain ⟨hlist, hinside⟩ := hnext rfl
      cases next <;> cases hlist
      have hlt := hinside.size_lt
      have hle := ih hrest
      rw [List.length_cons]
      omega

theorem shrinking_singleton (e : Expr) : Shrinking [e] :=
  .singleton e

theorem Shrinking.cons_atom {name : String} {held : List Expr} (h : Shrinking held) :
    Shrinking (.atom name :: held) := by
  cases held with
  | nil =>
      exact shrinking_singleton _
  | cons next rest =>
      refine List.isChain_cons_cons.mpr ⟨?_, h⟩
      intro hlist
      cases hlist

def firstListSize (held : List Expr) : Nat :=
  ((held.find? Expr.isList).map Expr.size).getD 0

namespace Interpreter

section Loops

variable {i : Interpreter} {eval : Evaluator} {base : Forest} {depth bound limit : Nat}
  {s : Store} {scope : ScopeId}

/-!
# Evaluations follow the loop

The size of the list that is held goes down with the rounds that are left, so
these never run out.
-/

theorem settle_loop (heval : (Agreement.strict base depth bound limit).Evaluators eval eval)
    (hquotes : eval.OnlyQuotes) (i : Interpreter) (mode : LookupMode) {rounds : Nat}
    {items : List Expr} (hs : s.Steady base depth bound) (hscope : scope.Within s.extent)
    (hitems : (Expr.list items).Within s.extent) (hrounds : (Expr.list items).size ≤ rounds) :
    ∃ held, i.Loop eval mode scope (.list items) s (.list items :: held)
        (i.settle eval rounds ⟨.list items, scope⟩ s) ∧ Shrinking (.list items :: held) := by
  induction rounds generalizing items scope s with
  | zero =>
      have hpos := Expr.size_pos (.list items)
      omega
  | succ rounds ih =>
      have hparts : List.Forall₂ ((Agreement.strict base depth bound limit).expr s.extent)
          items items :=
        List.forall₂_same.mpr fun e hmem => ⟨rfl, Expr.withinAll_iff.mp hitems e hmem⟩
      have hinvoke := Agreement.invoke heval hquotes hquotes i i ⟨rfl, hscope⟩ hparts
        s s ⟨rfl, rfl, hs⟩
      rw [settle_succ_list]
      cases hrun : i.invoke eval scope items s with
      | error e t =>
          rw [EvalM.bind_of_eq_error hrun]
          exact ⟨[], .failure hrun, shrinking_singleton _⟩
      | ok next t =>
          rw [EvalM.bind_of_eq_ok hrun]
          rw [hrun] at hinvoke
          obtain ⟨value, scope'⟩ := next
          cases hinvoke with
          | ok hlater hresult hstore =>
              obtain ⟨⟨⟨_, hvalue⟩, _, hnext⟩, hmem, _⟩ := hresult
              obtain ⟨_, rfl, ht⟩ := hstore
              cases value with
              | list items' =>
                  have hinside := Expr.inside_of_quoted_mem (hmem items' rfl)
                  have hlt := hinside.size_lt
                  obtain ⟨held, hloop, hshrinking⟩ := ih ht hnext hvalue (by omega)
                  exact ⟨.list items' :: held, .again hrun hloop,
                    List.isChain_cons_cons.mpr ⟨fun _ => ⟨rfl, hinside⟩, hshrinking⟩⟩
              | _ =>
                  rw [settle_of_isList_eq_false i eval rounds rfl]
                  exact ⟨[], .result hrun rfl, shrinking_singleton _⟩

theorem evalWith_of_isConstant (i : Interpreter) (eval : Evaluator) (scope : ScopeId) {e : Expr}
    (h : e.isConstant = true) (mode : LookupMode) :
    i.evalWith eval scope e mode = pure ⟨e, scope⟩ := by
  cases e <;> cases h <;> exact settle_of_isList_eq_false i eval _ rfl

theorem evalWith_loop (heval : (Agreement.strict base depth bound limit).Evaluators eval eval)
    (hquotes : eval.OnlyQuotes) (hi : i.Ample) {e : Expr} (hs : s.Steady base depth bound)
    (hscope : scope.Within s.extent) (he : e.Within s.extent) (mode : LookupMode) :
    ∃ held, i.Loop eval mode scope e s held (i.evalWith eval scope e mode s) ∧
      Shrinking held ∧ held.length ≤ 1 + firstListSize held := by
  cases e with
  | quoted inner =>
      exact ⟨_, .quoted scope inner s, shrinking_singleton _, Nat.le_add_right ..⟩
  | list items =>
      obtain ⟨held, hloop, hshrinking⟩ := settle_loop heval hquotes i mode hs hscope he (hi _)
      have hlength := hshrinking.length_le
      exact ⟨_, hloop, hshrinking, Nat.le_trans hlength (Nat.le_add_left ..)⟩
  | atom name =>
      have hlookup : i.evalWith eval scope (.atom name) mode s =
          i.settle eval (i.rounds ((s.lookup scope name mode).getD .null))
            ⟨(s.lookup scope name mode).getD .null, scope⟩ s := rfl
      rw [hlookup]
      cases hlist : ((s.lookup scope name mode).getD .null).isList with
      | false =>
          rw [settle_of_isList_eq_false i eval _ hlist]
          exact ⟨_, .atom hlist, shrinking_singleton _, Nat.le_add_right ..⟩
      | true =>
          cases hfound : s.lookup scope name mode with
          | none =>
              rw [hfound] at hlist
              cases hlist
          | some value =>
              rw [hfound] at hlist
              have hvalue := hs.closed.lookup_within hfound
              cases value <;> cases hlist
              obtain ⟨held, hloop, hshrinking⟩ :=
                settle_loop heval hquotes i mode hs hscope hvalue (hi _)
              have hlength := hshrinking.length_le
              refine ⟨_, .code hfound hloop, hshrinking.cons_atom, ?_⟩
              show held.length + 1 + 1 ≤ 1 + (Expr.list _).size
              omega
  | _ =>
      rw [evalWith_of_isConstant i eval scope rfl]
      exact ⟨_, .constant scope s rfl, shrinking_singleton _, Nat.le_add_right ..⟩

end Loops

variable {i : Interpreter} {s : Store} {scope : ScopeId} {e : Expr}

theorem execute_loop (hi : i.Ample) (hs : s.Closed) (hscope : scope.Within s.extent)
    (he : e.Within s.extent) (mode : LookupMode) (hroom : s.inFlight < i.limit) :
    ∃ held outcome, i.Loop i.execute mode scope e s.enter held outcome ∧
      i.execute scope e mode s = EvalM.ended outcome ∧
      Shrinking held ∧ held.length ≤ 1 + firstListSize held := by
  let A := Agreement.strict s.forest (s.inFlight + 1) (max s.enter.peak i.limit) i.limit
  have hsteady : s.enter.Steady s.forest (s.inFlight + 1) (max s.enter.peak i.limit) :=
    ⟨hs, s.forest.extends_refl, rfl, Nat.le_max_left ..⟩
  have hinside : A.Evaluators i.execute i.execute :=
    steady_execute_self hi (Nat.le_max_right ..) hroom
  obtain ⟨held, hloop, hshrinking, hlength⟩ :=
    evalWith_loop hinside i.execute_onlyQuotes hi hsteady hscope he mode
  refine ⟨held, _, hloop, ?_, hshrinking, hlength⟩
  rw [execute_eq hi hs hscope he, if_neg (Nat.not_le_of_lt hroom), EvalM.counted_eq_ended]

theorem execute_ends (hi : i.Ample) (hs : s.Closed) (hscope : scope.Within s.extent)
    (he : e.Within s.extent) (mode : LookupMode) :
    i.Ends scope e mode s (i.execute scope e mode s) := by
  -- Only the levels that are left matter: all else may change from one level to the next.
  induction hlevels : i.limit - s.inFlight generalizing scope e mode s with
  | zero =>
      have hfull : i.limit ≤ s.inFlight := Nat.le_of_sub_eq_zero hlevels
      rw [execute_eq hi hs hscope he, if_pos hfull]
      exact .limit scope e mode hfull
  | succ levels ih =>
      obtain ⟨held, outcome, hloop, hrun, _⟩ :=
        execute_loop hi hs hscope he mode (by omega)
      rw [hrun]
      apply Ends.loop i.execute (by omega) _ hloop
      intro scope e mode t ht hscope he hdepth
      exact ih ht hscope he mode (by omega)

/--
Every evaluation with the builtins ends with a value or an error, under any
limit.  Below the limit it follows the one way that its loop can go: each list
is followed by a list inside it, and there are no more rounds than the first
list has nodes and one for the name that led to it.
-/
theorem execute_terminates {s : Store} {scope : ScopeId} {e : Expr} (hs : s.Closed)
    (hscope : scope.Within s.extent) (he : e.Within s.extent) (mode : LookupMode) (limit : Nat) :
    (limited limit).Ends scope e mode s ((limited limit).execute scope e mode s) ∧
    (∀ t, (limited limit).execute scope e mode s ≠ .error .unsettled t) ∧
    (s.inFlight < limit → ∃ held outcome,
      (∀ held' outcome', (limited limit).Loop (limited limit).execute mode scope e s.enter
        held' outcome' ↔ held' = held ∧ outcome' = outcome) ∧
      (limited limit).execute scope e mode s = EvalM.ended outcome ∧
      Shrinking held ∧ held.length ≤ 1 + firstListSize held) := by
  refine ⟨execute_ends (limited_ample limit) hs hscope he mode, ?_, ?_⟩
  · intro t herror
    exact (evalAt_error_genuine (limited_ample limit) hs hscope he herror).1 rfl
  · intro hroom
    obtain ⟨held, outcome, hloop, hrun, hshrinking, hlength⟩ :=
      execute_loop (limited_ample limit) hs hscope he mode hroom
    refine ⟨held, outcome, fun held' outcome' => ⟨hloop.unique, ?_⟩, hrun, hshrinking, hlength⟩
    rintro ⟨rfl, rfl⟩
    exact hloop

/-- Code within code, bound to a name: `(do (let ((y '(do '(do '(1+ 1)))))) y)`. -/
def nestedCode : Expr :=
  let innermost : Expr := .list [.atom "1+", .num .one]
  let code : Expr := .list [.atom "do", .quoted (.list [.atom "do", .quoted innermost])]
  .list [.atom "do", .list [.atom "let", .list [.list [.atom "y", .quoted code]]], .atom "y"]

theorem execute_terminates_nestedCode :
    Store.library.Closed ∧ Store.first.Within Store.library.extent ∧
    nestedCode.Within Store.library.extent ∧
    (limited 3).Ends Store.first nestedCode .nearest Store.library
      ((limited 3).execute Store.first nestedCode .nearest Store.library) := by
  have he : nestedCode.Within Store.library.extent := by
    simp [nestedCode, Expr.Within, Expr.WithinAll]
  exact ⟨Store.closed_library, Store.first_within_library, he,
    (execute_terminates Store.closed_library Store.first_within_library he .nearest 3).1⟩

end Interpreter
end ScopeLisp
