import ScopeLisp.Proofs.Isolation

/-!
# Sequences and sessions

## Levels do not show

A sequence evaluates its expressions one level deeper than a session does.  An
evaluation that does not run out of levels gives the same on any larger number
of levels, whatever is in flight around it.

## A session as a sequence

A session threads scopes as a sequence does.  It differs in what it makes of a
last value that is a list, and in that a failure leaves it in the scope before
the expression that failed.
-/

namespace ScopeLisp

/-!
# Stores that differ in what is in flight

Stores that are renamed by the identity have the same scopes and functions.  They
may differ in how many evaluations are in flight.
-/

theorem Forest.eq_of_get?_eq {f g : Forest} (h : ∀ scope, g.get? scope = f.get? scope) :
    g = f := by
  rcases f with ⟨scopes, hparents⟩
  rcases g with ⟨scopes', hparents'⟩
  have hscopes : scopes' = scopes := Array.ext_getElem? fun i => h ⟨i⟩
  subst hscopes
  rfl

theorem Store.renamed_same_iff {s t : Store} :
    s.Renamed .same t ↔ t.forest = s.forest ∧ t.functions = s.functions := by
  constructor
  · intro h
    constructor
    · apply Forest.eq_of_get?_eq
      intro scope
      have hget := h.get?_eq scope
      rw [Scope.rename_same, Option.map_id] at hget
      exact hget
    · exact (h.function_fresh 0).symm
  · rintro ⟨hforest, hfunctions⟩
    refine ⟨?_, ?_, ?_⟩
    · intro scope
      rw [Scope.rename_same, Option.map_id, hforest]
      rfl
    · intro k
      rw [hforest]
      rfl
    · intro k
      rw [hfunctions]
      rfl

namespace Agreement

/-- Runs on renamed stores, of which the left one may run out of levels under a limit. -/
def renamedUpTo (r : Renaming) (limit : Nat) : Agreement :=
  { renamed r with excused := fun e => e = .stackExhausted limit }

theorem renamedUpTo_uncounted (r : Renaming) (limit : Nat) : (renamedUpTo r limit).Uncounted where
  enter := (renamed_uncounted r).enter
  leave := (renamed_uncounted r).leave
  exhausted _ := trivial

/-- With more levels on the right, the left side runs out of levels or both sides correspond. -/
theorem renamedUpTo_evalAt {i : Interpreter} (hi : i.Ample) (r : Renaming) {levels levels' : Nat}
    (hlevels : levels ≤ levels') :
    (renamedUpTo r i.limit).Evaluators (i.evalAt levels) (i.evalAt levels') := by
  induction levels generalizing levels' with
  | zero =>
      intro w a b e e' mode _ _ s s' _
      exact .excused rfl
  | succ levels ih =>
      rcases Nat.exists_eq_add_of_le' hlevels with ⟨more, rfl⟩
      intro w a b e e' mode hscope he
      rw [← Nat.add_assoc, Interpreter.evalAt_succ, Interpreter.evalAt_succ]
      apply (renamedUpTo_uncounted r i.limit).counted
      exact evalWith (ih (Nat.le_add_left ..)) (i.evalAt_onlyQuotes _) (i.evalAt_onlyQuotes _) hi hi
        mode hscope he

theorem renamedUpTo_counted_left {r : Renaming} {limit : Nat} {w : Extent}
    {p : Extent → Evaluated → Evaluated → Prop} {x y : EvalM Evaluated}
    (h : (renamedUpTo r limit).Acts w p x y) :
    (renamedUpTo r limit).Acts w p (EvalM.counted x) y := by
  rintro s s' ⟨rfl, hclosed, hrenamed⟩
  have hrun := h s.enter s' ⟨rfl, hclosed, hrenamed.get?_eq, hrenamed.scope_fresh,
    hrenamed.function_fresh⟩
  unfold EvalM.counted
  generalize x s.enter = first at hrun
  generalize y s' = second at hrun
  cases hrun with
  | ok hlater hresult hstore =>
      rcases hstore with ⟨rfl, hclosed, hrenamed⟩
      exact .ok hlater hresult ⟨rfl, hclosed, hrenamed.get?_eq, hrenamed.scope_fresh,
        hrenamed.function_fresh⟩
  | error hlater hshared hstore =>
      rcases hstore with ⟨rfl, hclosed, hrenamed⟩
      exact .error hlater hshared ⟨rfl, hclosed, hrenamed.get?_eq, hrenamed.scope_fresh,
        hrenamed.function_fresh⟩
  | excused h =>
      exact .excused h

end Agreement

/-!
# The sequence form

A sequence gives a list only for a quoted list at its end.  Any other sequence
is settled as soon as its last expression is evaluated.
-/

theorem Interpreter.evalAt_sequence {i : Interpreter} (hi : i.Ample) {s : Store} {scope : ScopeId}
    {name label : String} {identity : Identity}
    (hname : s.lookup scope name .nearest = some (.native identity label (.builtin .sequence)))
    {es : List Expr} (hlast : ∀ items, es.getLast? ≠ some (.quoted (.list items))) (levels : Nat)
    (mode : LookupMode) :
    i.evalAt (levels + 1) scope (.list (.atom name :: es)) mode s =
      EvalM.counted (evalSequence (i.evalAt levels) ⟨.null, scope⟩ es) s := by
  have hinvoke : i.invoke (i.evalAt levels) scope (.atom name :: es) s.enter =
      evalSequence (i.evalAt levels) ⟨.null, scope⟩ es s.enter := by
    have hfound : EvalM.lookup scope name .nearest s.enter =
        .ok (some (.native identity label (.builtin .sequence))) s.enter :=
      congrArg (EStateM.Result.ok · s.enter) hname
    exact EvalM.bind_of_eq_ok hfound _
  have hresult : ∀ result t, i.invoke (i.evalAt levels) scope (.atom name :: es) s.enter =
      .ok result t → result.value.isList = false := by
    intro result t hrun
    rw [hinvoke] at hrun
    cases hvalue : result.value with
    | list items =>
        cases getLast?_of_evalSequence (i.evalAt_onlyQuotes levels) hrun hvalue with
        | inl hnull =>
            cases hnull
        | inr hquoted =>
            exact absurd hquoted (hlast items)
    | _ =>
        rfl
  rw [evalAt_invoke hi hresult, EvalM.counted, EvalM.counted, hinvoke]

namespace Session

variable {s : Session}

theorem Sound.sequence_outcome (hs : s.Sound) {name label : String} {identity : Identity}
    (hname : s.store.lookup s.scope name .nearest =
      some (.native identity label (.builtin .sequence)))
    {es : List Expr} (hes : ∀ e ∈ es, e.Within s.store.extent)
    (hlast : ∀ items, es.getLast? ≠ some (.quoted (.list items))) (mode : LookupMode) :
    let A := Agreement.renamedUpTo .same s.interpreter.limit
    A.Outcome s.store.extent A.evaluated
      (s.interpreter.eval s.scope (.list (.atom name :: es)) mode s.store)
      (evalSequence s.interpreter.eval ⟨.null, s.scope⟩ es s.store) := by
  intro A
  have hstore : A.store s.store.extent s.store s.store :=
    ⟨rfl, hs.closed, Store.renamed_same_iff.mpr ⟨rfl, rfl⟩⟩
  have hstart : A.evaluated s.store.extent ⟨.null, s.scope⟩ ⟨.null, s.scope⟩ :=
    ⟨A.plain .null, rfl, hs.scope_within⟩
  have hargs : List.Forall₂ (A.expr s.store.extent) es es := by
    rw [List.forall₂_same]
    intro e hmem
    exact ⟨(Expr.rename_same e).symm, hes e hmem⟩
  unfold Interpreter.eval
  cases s.interpreter.limit with
  | zero =>
      exact .excused rfl
  | succ levels =>
      have heval : A.Evaluators (s.interpreter.evalAt levels) (s.interpreter.evalAt (levels + 1)) :=
        Agreement.renamedUpTo_evalAt hs.ample .same (Nat.le_succ levels)
      rw [Interpreter.evalAt_sequence hs.ample hname hlast]
      apply Agreement.renamedUpTo_counted_left _ _ _ hstore
      exact Agreement.evalSequence heval hstart hargs

/-!
# A session as a sequence

A session evaluates expressions as a sequence does, and keeps the scope that the
last success gave.
-/

theorem evalAll_of_ok {last : Expr} {es : List Expr} {result : Evaluated} {t : Store}
    (h : evalSequence s.interpreter.eval ⟨last, s.scope⟩ es s.store = .ok result t) :
    s.evalAll last es = (.ok result.value, { s with store := t, scope := result.scope }) := by
  induction es generalizing s last with
  | nil =>
      cases h
      rfl
  | cons e rest ih =>
      rw [evalSequence, EvalM.bind_eq_ok_iff] at h
      rcases h with ⟨next, store, hnext, hrest⟩
      have hfirst : s.eval e =
          (.ok next.value, { s with store := store, scope := next.scope }) := by
        rw [Session.eval, hnext]
      rw [evalAll, hfirst]
      exact ih hrest

theorem evalAll_of_error {last : Expr} {es : List Expr} {error : EvalError} {t : Store}
    (h : evalSequence s.interpreter.eval ⟨last, s.scope⟩ es s.store = .error error t) :
    ∃ before failing rest value reached, es = before ++ failing :: rest ∧
      s.evalAll last before = (.ok value, reached) ∧
      reached.eval failing = (.error error, { reached with store := t }) := by
  induction es generalizing s last with
  | nil =>
      cases h
  | cons e rest ih =>
      rw [evalSequence, EvalM.bind_eq_error_iff] at h
      rcases h with hfailing | ⟨next, store, hnext, hrest⟩
      · refine ⟨[], e, rest, last, s, rfl, rfl, ?_⟩
        rw [Session.eval, hfailing]
      · have hfirst :
            s.eval e = (.ok next.value, { s with store := store, scope := next.scope }) := by
          rw [Session.eval, hnext]
        rcases ih (s := { s with store := store, scope := next.scope }) hrest with
          ⟨before, failing, rest, value, reached, rfl, hbefore, hfailing⟩
        refine ⟨e :: before, failing, rest, value, reached, rfl, ?_, hfailing⟩
        rw [evalAll, hfirst]
        exact hbefore

theorem evalAll_of_failing {last value failing : Expr} {before : List Expr} {error : EvalError}
    {reached final : Session} (hbefore : s.evalAll last before = (.ok value, reached))
    (hfailing : reached.eval failing = (.error error, final)) (rest : List Expr) :
    s.evalAll last (before ++ failing :: rest) = (.error error, final) := by
  rw [evalAll_append, hbefore]
  show reached.evalAll value (failing :: rest) = _
  rw [evalAll, hfailing]

theorem evalSource_of_parse_error {source : List Char} {error : Source.Error}
    (h : Source.parseProgram source = .error error) :
    s.evalSource source = (.error (.reading error), s) := by
  rw [evalSource, h]

theorem evalSource_of_ok {source : List Char} {es : List Expr} {value : Expr} {final : Session}
    (hsource : Source.parseProgram source = .ok es)
    (h : s.evalAll .null es = (.ok value, final)) :
    s.evalSource source = (.ok value, final) := by
  simp only [evalSource, hsource, h]

theorem evalSource_of_error {source : List Char} {es : List Expr} {error : EvalError}
    {final : Session} (hsource : Source.parseProgram source = .ok es)
    (h : s.evalAll .null es = (.error error, final)) :
    s.evalSource source = (.error (.evaluation error), final) := by
  simp only [evalSource, hsource, h]

/--
A session agrees with the sequence form.  As long as the form does not run out
of levels, both give the same value in the same scope or fail with the same
error, over the same scopes.  A failure leaves the session in the scope that the
last expression before it gave, and a program that cannot be read leaves the
session as it was.
-/
theorem evalSource_agrees_with_sequence (hs : s.Sound) {label : String} {identity : Identity}
    (hname : s.store.lookup s.scope "do" .nearest =
      some (.native identity label (.builtin .sequence)))
    {es : List Expr} (hes : ∀ e ∈ es, e.Within s.store.extent)
    (hlast : ∀ items, es.getLast? ≠ some (.quoted (.list items))) (mode : LookupMode)
    (hlevels : ∀ limit t, s.interpreter.eval s.scope (.list (.atom "do" :: es)) mode s.store ≠
      .error (.stackExhausted limit) t) :
    (∀ result t, s.interpreter.eval s.scope (.list (.atom "do" :: es)) mode s.store = .ok result t →
      ∃ final : Session, s.evalAll .null es = (.ok result.value, final) ∧
        (∀ source, Source.parseProgram source = .ok es →
          s.evalSource source = (.ok result.value, final)) ∧
        final.scope = result.scope ∧
        final.store.forest = t.forest ∧ final.store.functions = t.functions) ∧
    (∀ error t, s.interpreter.eval s.scope (.list (.atom "do" :: es)) mode s.store =
        .error error t →
      ∃ before failing rest value, ∃ reached final : Session, es = before ++ failing :: rest ∧
        s.evalAll .null before = (.ok value, reached) ∧
        reached.eval failing = (.error error, final) ∧
        s.evalAll .null es = (.error error, final) ∧
        (∀ source, Source.parseProgram source = .ok es →
          s.evalSource source = (.error (.evaluation error), final)) ∧
        final.scope = reached.scope ∧
        final.store.forest = t.forest ∧ final.store.functions = t.functions) ∧
    ∀ source error, Source.parseProgram source = .error error →
      s.evalSource source = (.error (.reading error), s) := by
  have houtcome := hs.sequence_outcome hname hes hlast mode
  refine ⟨?_, ?_, ?_⟩
  · intro result t hform
    rw [hform] at houtcome
    generalize hrun : evalSequence s.interpreter.eval _ es s.store = run at houtcome
    cases houtcome with
    | @ok _ _ result' _ store _ hresult hstore =>
        have hall := evalAll_of_ok hrun
        have hvalue : result'.value = result.value :=
          hresult.1.1.trans (Expr.rename_same result.value)
        rw [hvalue] at hall
        exact ⟨_, hall, fun _ hsource => evalSource_of_ok hsource hall, hresult.2.1,
          Store.renamed_same_iff.mp hstore.2.2⟩
  · intro error t hform
    rw [hform] at houtcome
    generalize hrun : evalSequence s.interpreter.eval _ es s.store = run at houtcome
    cases houtcome with
    | error _ _ hstore =>
        rcases evalAll_of_error hrun with
          ⟨before, failing, rest, value, reached, rfl, hbefore, hfailing⟩
        have hall := evalAll_of_failing hbefore hfailing rest
        exact ⟨before, failing, rest, value, reached, _, rfl, hbefore, hfailing, hall,
          fun _ hsource => evalSource_of_error hsource hall, rfl,
          Store.renamed_same_iff.mp hstore.2.2⟩
    | excused h =>
        rw [h] at hform
        exact absurd hform (hlevels _ _)
  · intro source error hsource
    exact evalSource_of_parse_error hsource

/-- A program that rebinds the sequence form and then uses it: `(let ((do "x"))) do (do)`. -/
def rebinding : List Expr :=
  [.list [.atom "let", .list [.list [.atom "do", .str "x"]]], .atom "do", .list [.atom "do"]]

theorem evalSource_agrees_with_sequence_rebinding :
    Source.parseProgram "(let ((do \"x\"))) do (do)".toList = .ok rebinding ∧
    ∃ before failing rest value, ∃ reached final : Session, rebinding = before ++ failing :: rest ∧
      (start (.limited 10)).evalAll .null before = (.ok value, reached) ∧
      reached.eval failing = (.error (.notCallable "do" "\"x\""), final) ∧
      (start (.limited 10)).evalSource "(let ((do \"x\"))) do (do)".toList =
        (.error (.evaluation (.notCallable "do" "\"x\"")), final) ∧
      final.scope = reached.scope := by
  have hsource : Source.parseProgram "(let ((do \"x\"))) do (do)".toList = .ok rebinding := rfl
  have hes : ∀ e ∈ rebinding, e.Within (start (.limited 10)).store.extent := by
    simp [rebinding, Expr.Within, Expr.WithinAll]
  have hlast : ∀ items, rebinding.getLast? ≠ some (.quoted (.list items)) := by
    intro items h
    cases h
  have hlevels : ∀ limit t, (Interpreter.limited 10).eval (start (.limited 10)).scope
      (.list (.atom "do" :: rebinding)) .nearest (start (.limited 10)).store ≠
        .error (.stackExhausted limit) t := by
    intro limit t h
    cases h
  rcases (evalSource_agrees_with_sequence (start_sound 10) rfl hes hlast .nearest hlevels).2.1 _ _
    rfl with ⟨before, failing, rest, value, reached, final, hsplit, hbefore, hfailing, _, hall,
      hscope, _⟩
  exact ⟨hsource, before, failing, rest, value, reached, final, hsplit, hbefore, hfailing,
    hall _ hsource, hscope⟩

end Session
end ScopeLisp
