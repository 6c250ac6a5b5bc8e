import ScopeLisp.Proofs.ListResults

/-!
# Contracts of evaluation

## What is promised

A contract says what may be evaluated, what evaluation may give, which stores it
may leave behind and with which errors it may fail.  All but the errors may
depend on a world, which moves on while evaluation runs, and what belongs to a
world belongs to all later ones.

## From steps to invocations

Evaluation opens scopes, binds names in them, looks names up and defines
functions.  If these few steps keep a contract, and the evaluator that an
operation is given keeps it, then so does every invocation.  A native of the
host may do anything, so each has to be asked separately.
-/

namespace ScopeLisp

theorem bindingPair_isOrdinary {e : Expr} {error : EvalError} (h : bindingPair e = .error error) :
    error.IsOrdinary := by
  unfold bindingPair at h
  split at h <;> cases h <;> simp [EvalError.IsOrdinary]

structure Contract where
  World : Type
  Later : World → World → Prop
  /-- What may be evaluated. -/
  code : World → Expr → Prop
  /-- What evaluation may give, and names may be bound to. -/
  value : World → Expr → Prop
  /-- Scopes in which names may be bound. -/
  opened : World → ScopeId → Prop
  store : World → Store → Prop
  fails : EvalError → Prop
  later_refl (w : World) : Later w w
  later_trans {w₁ w₂ w₃ : World} : Later w₁ w₂ → Later w₂ w₃ → Later w₁ w₃
  code_later {w w' : World} {e : Expr} : Later w w' → code w e → code w' e
  opened_later {w w' : World} {id : ScopeId} : Later w w' → opened w id → opened w' id
  fails_of_ordinary {e : EvalError} : e.IsOrdinary → fails e

namespace Contract

variable {C : Contract} {α β : Type}

/-- Outcomes that keep a contract, in a later world to which the result belongs. -/
inductive Outcome (C : Contract) (w : C.World) (r : C.World → α → Prop) :
    EStateM.Result EvalError Store α → Prop where
  | ok {w' : C.World} {a : α} {s : Store} (hlater : C.Later w w') (hresult : r w' a)
      (hstore : C.store w' s) : Outcome C w r (.ok a s)
  | error {w' : C.World} {e : EvalError} {s : Store} (hlater : C.Later w w') (hfails : C.fails e)
      (hstore : C.store w' s) : Outcome C w r (.error e s)

def Acts (C : Contract) (w : C.World) (r : C.World → α → Prop) (x : EvalM α) : Prop :=
  ∀ s, C.store w s → C.Outcome w r (x s)

def evaluated (C : Contract) (w : C.World) (x : Evaluated) : Prop :=
  C.value w x.value

def Evaluates (C : Contract) (eval : Evaluator) : Prop :=
  ∀ ⦃w : C.World⦄ ⦃e : Expr⦄ (scope : ScopeId) (mode : LookupMode), C.code w e →
    C.Acts w C.evaluated (eval scope e mode)

/-- Natives that keep a contract if the evaluator they are given does. -/
def Calls (C : Contract) (body : NativeBody) : Prop :=
  ∀ eval, C.Evaluates eval → ∀ ⦃w : C.World⦄ ⦃args : List Expr⦄ (scope : ScopeId),
    (∀ e ∈ args, C.code w e) → C.Acts w C.evaluated (body eval scope args)

/--
A contract that the steps of evaluation keep.  A name has to stand in code before
it is looked up, and definitions are made only where the native for them can be
found.
-/
structure Lawful (C : Contract) : Prop where
  plain {w : C.World} {e : Expr} : e.IsPlain → C.value w e
  item {w : C.World} {e : Expr} {items : List Expr} :
    C.code w (.list items) → e ∈ items → C.code w e
  body {w : C.World} {identity : Identity} {params : List String} {body : List Expr} :
    C.value w (.lambda identity params body) → C.code w (.list body)
  lookup {w : C.World} {s : Store} {scope : ScopeId} {name : String} {mode : LookupMode}
    {e : Expr} : C.code w (.atom name) → C.store w s → s.lookup scope name mode = some e →
      C.value w e
  openScope (w : C.World) (parent : ScopeId) : C.Acts w C.opened (EvalM.openScope parent)
  bindName {w : C.World} {id : ScopeId} {e : Expr} (name : String) : C.opened w id →
    C.value w e → C.Acts w (fun _ _ => True) (EvalM.bindName id name e)
  define {w : C.World} {identity : Identity} {label : String} {eval : Evaluator}
    {args : List Expr} (scope : ScopeId) : C.Evaluates eval →
      C.value w (.native identity label (.builtin .define)) → (∀ e ∈ args, C.code w e) →
        C.Acts w C.evaluated (defineForm eval scope args)

/-!
# Composing computations

Results, errors and compositions of computations that keep a contract keep it
as well.
-/

theorem Outcome.of_later {w w' : C.World} {r : C.World → α → Prop}
    {x : EStateM.Result EvalError Store α} (hw : C.Later w w') (h : C.Outcome w' r x) :
    C.Outcome w r x := by
  cases h with
  | ok hlater hresult hstore =>
      exact .ok (C.later_trans hw hlater) hresult hstore
  | error hlater hfails hstore =>
      exact .error (C.later_trans hw hlater) hfails hstore

namespace Acts

variable {w : C.World}

theorem pure {r : C.World → α → Prop} {a : α} (h : r w a) : C.Acts w r (Pure.pure a) := by
  intro s hs
  exact .ok (C.later_refl w) h hs

theorem throw {r : C.World → α → Prop} {e : EvalError} (h : e.IsOrdinary) :
    C.Acts w r (MonadExcept.throw e : EvalM α) := by
  intro s hs
  exact .error (C.later_refl w) (C.fails_of_ordinary h) hs

theorem bind {r : C.World → α → Prop} {r' : C.World → β → Prop} {x : EvalM α}
    {f : α → EvalM β} (h : C.Acts w r x)
    (hnext : ∀ w' a, C.Later w w' → r w' a → C.Acts w' r' (f a)) : C.Acts w r' (x >>= f) := by
  intro s hs
  have hfirst := h s hs
  cases hx : x s with
  | ok a t =>
      rw [hx] at hfirst
      rw [EvalM.bind_of_eq_ok hx]
      cases hfirst with
      | ok hlater hresult hstore =>
          exact (hnext _ a hlater hresult t hstore).of_later hlater
  | error e t =>
      rw [hx] at hfirst
      rw [EvalM.bind_of_eq_error hx]
      cases hfirst with
      | error hlater hfails hstore =>
          exact .error hlater hfails hstore

theorem ofExcept {r : C.World → α → Prop} {x : Except EvalError α} (hok : ∀ a, x = .ok a → r w a)
    (herror : ∀ e, x = .error e → C.fails e) : C.Acts w r (EvalM.ofExcept x) := by
  intro s hs
  cases x with
  | ok a =>
      exact .ok (C.later_refl w) (hok a rfl) hs
  | error e =>
      exact .error (C.later_refl w) (herror e rfl) hs

theorem of_results {r r' : C.World → α → Prop} {x : EvalM α} (h : C.Acts w r x)
    (hresults : ∀ w' s a t, x s = .ok a t → r' w' a) : C.Acts w r' x := by
  intro s hs
  have houtcome := h s hs
  generalize hx : x s = outcome at houtcome
  cases houtcome with
  | ok hlater _ hstore =>
      exact .ok hlater (hresults _ _ _ _ hx) hstore
  | error hlater hfails hstore =>
      exact .error hlater hfails hstore

end Acts

/-!
# Evaluations in a row

A sweep, a template and a sequence evaluate one expression after the other,
each in the world that the previous one has reached.
-/

namespace Evaluates

variable {eval : Evaluator} (heval : C.Evaluates eval) {w : C.World}
include heval

theorem sweep {σ : Type} {rule : Rule σ} (hrule : rule.Lawful) (scope : ScopeId) (state : σ)
    {args : List Expr} (hargs : ∀ e ∈ args, C.code w e) :
    C.Acts w (fun _ _ => True) (rule.sweep eval scope state args) := by
  induction args generalizing state w with
  | nil =>
      rw [Rule.sweep_nil]
      have hfinish : C.Acts w (fun _ _ => True) (EvalM.ofExcept (rule.finish state)) :=
        Acts.ofExcept (fun _ _ => trivial)
          fun _ herror => C.fails_of_ordinary (hrule.finish_isOrdinary herror)
      apply Acts.bind hfinish
      intro w' value _ _
      exact Acts.pure trivial
  | cons arg rest ih =>
      rcases List.forall_mem_cons.mp hargs with ⟨harg, hrest⟩
      rw [Rule.sweep_cons]
      apply Acts.bind (heval scope rule.mode harg)
      intro w' result hlater _
      cases hverdict : rule.step state result.value with
      | next state' =>
          exact ih state' fun e he => C.code_later hlater (hrest e he)
      | stop value =>
          exact Acts.pure trivial
      | fail e =>
          exact Acts.throw (hrule.fail_isOrdinary hverdict)

theorem interpolate (scope : ScopeId) (template : List Char) {args : List Expr}
    (hargs : ∀ e ∈ args, C.code w e) :
    C.Acts w (fun _ _ => True) (ScopeLisp.interpolate eval scope template args) := by
  fun_induction ScopeLisp.interpolate eval scope template args generalizing w with
  | case1 =>
      exact Acts.pure trivial
  | case2 =>
      exact Acts.pure trivial
  | case3 directive rest ih =>
      apply Acts.bind (ih hargs)
      intro w' text _ _
      exact Acts.pure trivial
  | case4 rest arg args ih =>
      rcases List.forall_mem_cons.mp hargs with ⟨harg, hrest⟩
      apply Acts.bind (heval scope .nearest harg)
      intro w₁ result hlater₁ _
      have hnumber : C.Acts w₁ (fun _ _ => True) (EvalM.ofExcept (numberChars result.value)) := by
        refine Acts.ofExcept (fun _ _ => trivial) fun e herror => C.fails_of_ordinary ?_
        exact numberChars_isOrdinary herror
      apply Acts.bind hnumber
      intro w₂ number hlater₂ _
      have hlater := C.later_trans hlater₁ hlater₂
      apply Acts.bind (ih fun e he => C.code_later hlater (hrest e he))
      intro w₃ text _ _
      exact Acts.pure trivial
  | case5 =>
      exact Acts.throw (by simp [EvalError.IsOrdinary])
  | case6 c rest args _ _ _ ih =>
      apply Acts.bind (ih hargs)
      intro w' text _ _
      exact Acts.pure trivial

theorem evalSequence {last : Evaluated} (hlast : C.evaluated w last) {args : List Expr}
    (hargs : ∀ e ∈ args, C.code w e) :
    C.Acts w C.evaluated (ScopeLisp.evalSequence eval last args) := by
  induction args generalizing last w with
  | nil =>
      exact Acts.pure hlast
  | cons arg rest ih =>
      rcases List.forall_mem_cons.mp hargs with ⟨harg, hrest⟩
      apply Acts.bind (heval last.scope .nearest harg)
      intro w' next hlater hnext
      exact ih hnext fun e he => C.code_later hlater (hrest e he)

end Evaluates

namespace Lawful

variable (hC : C.Lawful) {w : C.World}
include hC

theorem of_isPlain {r : C.World → Evaluated → Prop} {x : EvalM Evaluated} (h : C.Acts w r x)
    (hplain : ∀ s result t, x s = .ok result t → result.value.IsPlain) :
    C.Acts w C.evaluated x :=
  h.of_results fun _ s result t hx => hC.plain (hplain s result t hx)

theorem lookupName (scope : ScopeId) {name : String} (hname : C.code w (.atom name))
    (mode : LookupMode) :
    C.Acts w (fun w found => ∀ e, found = some e → C.value w e)
      (EvalM.lookup scope name mode) := by
  intro s hs
  exact .ok (C.later_refl w) (fun e he => hC.lookup hname hs he) hs

/-!
# Operations of the language

Each form is a composition of the steps above and of evaluations of its
arguments.
-/

theorem code_of_bindingPair {pairs : List Expr} (hpairs : C.code w (.list pairs)) {name : String}
    {e : Expr} (h : .ok (name, e) ∈ pairs.map bindingPair) : C.code w e := by
  rcases List.mem_map.mp h with ⟨pair, hmem, hpair⟩
  unfold bindingPair at hpair
  split at hpair
  · cases hpair
    exact hC.item (hC.item hpairs hmem) (by simp)
  · cases hpair
  · cases hpair

variable {eval : Evaluator} (heval : C.Evaluates eval)
include heval

theorem swept {σ : Type} {rule : Rule σ} (hrule : rule.Lawful) (scope : ScopeId) (state : σ)
    {args : List Expr} (hargs : ∀ e ∈ args, C.code w e) :
    C.Acts w C.evaluated (rule.sweep eval scope state args) :=
  hC.of_isPlain (heval.sweep hrule scope state hargs) fun _ _ _ h => (Rule.sweep_plain hrule h).1

theorem unary (name : String) {apply : Expr → Except EvalError Expr}
    (happly : LawfulApplication apply) (scope : ScopeId) {args : List Expr}
    (hargs : ∀ e ∈ args, C.code w e) :
    C.Acts w C.evaluated (ScopeLisp.unary name apply eval scope args) := by
  unfold ScopeLisp.unary
  split
  · exact hC.swept heval (Rule.single_lawful happly) scope () hargs
  · exact Acts.throw (by simp [EvalError.IsOrdinary])

theorem bindEach {inner : ScopeId} (hinner : C.opened w inner) (scope : ScopeId)
    {pairs : List (Except EvalError (String × Expr))}
    (hpairs : ∀ name e, .ok (name, e) ∈ pairs → C.code w e)
    (herrors : ∀ error, .error error ∈ pairs → C.fails error) :
    C.Acts w (fun _ _ => True) (ScopeLisp.bindEach eval scope inner pairs) := by
  induction pairs generalizing w with
  | nil =>
      exact Acts.pure trivial
  | cons pair rest ih =>
      have hpair : C.Acts w (fun w binding => C.code w binding.2) (EvalM.ofExcept pair) := by
        apply Acts.ofExcept
        · rintro ⟨name, e⟩ rfl
          exact hpairs name e (List.mem_cons_self ..)
        · rintro error rfl
          exact herrors error (List.mem_cons_self ..)
      apply Acts.bind hpair
      rintro w₁ ⟨name, e⟩ hlater₁ he
      apply Acts.bind (heval scope .nearest he)
      intro w₂ result hlater₂ hresult
      have hlater := C.later_trans hlater₁ hlater₂
      apply Acts.bind (hC.bindName name (C.opened_later hlater hinner) hresult)
      intro w₃ _ hlater₃ _
      have hlater := C.later_trans hlater hlater₃
      apply ih (C.opened_later hlater hinner)
      · intro name e hmem
        exact C.code_later hlater (hpairs name e (List.mem_cons_of_mem _ hmem))
      · intro error hmem
        exact herrors error (List.mem_cons_of_mem _ hmem)

theorem bindingsForm (scope : ScopeId) {args : List Expr} (hargs : ∀ e ∈ args, C.code w e) :
    C.Acts w C.evaluated (ScopeLisp.bindingsForm eval scope args) := by
  have hacts : C.Acts w (fun _ _ => True) (ScopeLisp.bindingsForm eval scope args) := by
    unfold ScopeLisp.bindingsForm
    split
    · rename_i pairs
      have hpairs := hargs _ (List.mem_singleton_self _)
      apply Acts.bind (hC.openScope w scope)
      intro w₁ inner hlater hinner
      have hcode : ∀ name e, .ok (name, e) ∈ pairs.map bindingPair → C.code w₁ e := by
        intro name e hmem
        exact C.code_later hlater (hC.code_of_bindingPair hpairs hmem)
      have herrors : ∀ error, .error error ∈ pairs.map bindingPair → C.fails error := by
        intro error hmem
        rcases List.mem_map.mp hmem with ⟨pair, _, hpair⟩
        exact C.fails_of_ordinary (bindingPair_isOrdinary hpair)
      apply Acts.bind (hC.bindEach heval hinner scope hcode herrors)
      intro w₂ _ _ _
      exact Acts.pure trivial
    · exact Acts.throw (by simp [EvalError.IsOrdinary])
    · exact Acts.throw (by simp [EvalError.IsOrdinary])
  refine hC.of_isPlain hacts fun s result t h => ?_
  rw [bindingsForm_value h]
  exact .null

theorem assertionForm (scope : ScopeId) {args : List Expr} (hargs : ∀ e ∈ args, C.code w e) :
    C.Acts w C.evaluated (ScopeLisp.assertionForm eval scope args) := by
  have hfailed {w : C.World} (message : Option String) :
      C.Acts w C.evaluated (throw (.assertionFailed message)) :=
    Acts.throw (by simp [EvalError.IsOrdinary])
  unfold ScopeLisp.assertionForm
  split
  · exact Acts.throw (by simp [EvalError.IsOrdinary])
  · rename_i test rest
    rcases List.forall_mem_cons.mp hargs with ⟨htest, hrest⟩
    apply Acts.bind (heval scope .nearest htest)
    intro w₁ tested hlater₁ _
    split
    · exact Acts.pure (hC.plain .truth)
    · split
      · exact hfailed none
      · rename_i wanted rest
        rcases List.forall_mem_cons.mp hrest with ⟨hwanted, hrest⟩
        apply Acts.bind (heval scope .nearest (C.code_later hlater₁ hwanted))
        intro w₂ wanted hlater₂ _
        have hlater := C.later_trans hlater₁ hlater₂
        split
        · split
          · rcases List.forall_mem_cons.mp hrest with ⟨_, hrest⟩
            apply Acts.bind
              (heval.interpolate scope _ fun e he => C.code_later hlater (hrest e he))
            intro w₃ text _ _
            exact hfailed _
          · exact Acts.throw (by simp [EvalError.IsOrdinary])
        · exact hfailed none

/-!
# Builtins and calls

Every builtin keeps a lawful contract, and so does a call of a function of the
program.
-/

theorem builtin {identity : Identity} {label : String} {operation : Builtin}
    (hnative : C.value w (.native identity label (.builtin operation))) (scope : ScopeId)
    {args : List Expr} (hargs : ∀ e ∈ args, C.code w e) :
    C.Acts w C.evaluated (operation.body eval scope args) := by
  cases operation with
  | sequence =>
      have hnull : C.evaluated w ⟨.null, scope⟩ := hC.plain .null
      exact heval.evalSequence hnull hargs
  | define =>
      exact hC.define scope heval hnative hargs
  | bindings =>
      exact hC.bindingsForm heval scope hargs
  | assertion =>
      exact hC.assertionForm heval scope hargs
  | arithmetic op =>
      exact hC.swept heval (Rule.fold_lawful _ _) scope none hargs
  | comparison op =>
      exact hC.swept heval (Rule.chain_lawful _ _) scope none hargs
  | increment =>
      exact hC.unary heval _ (shiftBy_lawful _ _) scope hargs
  | decrement =>
      exact hC.unary heval _ (shiftBy_lawful _ _) scope hargs
  | conjunction =>
      exact hC.swept heval (Rule.all_lawful _) scope false hargs
  | disjunction =>
      exact hC.swept heval (Rule.any_lawful _) scope () hargs
  | negation =>
      exact hC.unary heval _ (negate_lawful _) scope hargs

theorem call (scope : ScopeId) (name : String) (home : ScopeId) (params : List String)
    {body args : List Expr} (hbody : C.code w (.list body)) (hargs : ∀ e ∈ args, C.code w e) :
    C.Acts w C.evaluated (Interpreter.call eval scope name home params body args) := by
  unfold Interpreter.call
  split
  · exact Acts.throw (by simp [EvalError.IsOrdinary])
  · apply Acts.bind (hC.openScope w home)
    intro w₁ inner hlater₁ hinner
    have hcode (name : String) (e : Expr)
        (hmem : .ok (name, e) ∈ (params.zip args).map (@Except.ok EvalError _)) :
        C.code w₁ e := by
      rcases List.mem_map.mp hmem with ⟨binding, hbinding, hpair⟩
      cases hpair
      exact C.code_later hlater₁ (hargs e (List.of_mem_zip hbinding).2)
    have herrors (error : EvalError)
        (hmem : .error error ∈ (params.zip args).map (@Except.ok EvalError _)) :
        C.fails error := by
      rcases List.mem_map.mp hmem with ⟨binding, _, hpair⟩
      cases hpair
    apply Acts.bind (hC.bindEach heval hinner scope hcode herrors)
    intro w₂ _ hlater₂ _
    have hlater := C.later_trans hlater₁ hlater₂
    apply Acts.bind (heval inner .nearest (C.code_later hlater hbody))
    intro w₃ result _ hresult
    have hvalue : C.evaluated w₃ ⟨result.value, scope⟩ := hresult
    exact Acts.pure hvalue

/-- An invocation keeps a contract that the evaluator and the natives of the host keep. -/
theorem invoke {i : Interpreter} (hi : ∀ key, C.Calls (i.host key)) (scope : ScopeId)
    {items : List Expr} (hitems : ∀ e ∈ items, C.code w e) :
    C.Acts w C.evaluated (i.invoke eval scope items) := by
  unfold Interpreter.invoke
  split
  · exact Acts.throw (by simp [EvalError.IsOrdinary])
  · rename_i name args
    rcases List.forall_mem_cons.mp hitems with ⟨hname, hargs⟩
    apply Acts.bind (hC.lookupName scope hname .nearest)
    intro w' found hlater hfound
    have hargs' : ∀ e ∈ args, C.code w' e := fun e he => C.code_later hlater (hargs e he)
    split
    · rename_i routine
      cases routine with
      | builtin operation =>
          exact hC.builtin heval (hfound _ rfl) scope hargs'
      | host key =>
          exact hi key eval heval scope hargs'
    · exact hC.call heval scope name _ _ (hC.body (hfound _ rfl)) hargs'
    · exact Acts.throw (by simp [EvalError.IsOrdinary])
    · exact Acts.throw (by simp [EvalError.IsOrdinary])
  · exact Acts.throw (by simp [EvalError.IsOrdinary])

end Lawful
end Contract
end ScopeLisp
