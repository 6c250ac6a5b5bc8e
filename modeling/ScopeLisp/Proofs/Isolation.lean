import ScopeLisp.Proofs.DepthLimit
import ScopeLisp.Proofs.Renaming
import ScopeLisp.Session

/-!
# Isolation

## What can be seen of an outcome

Two outcomes are alike when they are the same error, or values that differ in
the numbers of scopes and functions only.  Neither kind nor text of a value
depends on these numbers.

## Discarded evaluations

An evaluation leaves scopes and functions behind, but nothing that was there
before leads to them.  What comes next is therefore alike, whether the
evaluation was run or not.

## Functions and their callers

The body of a function sees its home scope and its arguments.  Neither the scope
of a call nor anything that was evaluated since can change what a call gives.
-/

namespace ScopeLisp

/-!
# Outcomes that are alike

On a store that has grown an evaluation gives the renamed outcome.
-/

/-- Outcomes that cannot be told apart up to a renaming, on stores that are renamed as well. -/
inductive Alike (r : Renaming) :
    EStateM.Result EvalError Store Evaluated → EStateM.Result EvalError Store Evaluated → Prop where
  | error (e : EvalError) {s t : Store} (hstore : s.Renamed r t) : Alike r (.error e s) (.error e t)
  | ok {x y : Evaluated} {s t : Store} (hvalue : y.value = x.value.rename r)
      (hkind : y.value.kindName = x.value.kindName) (htext : y.value.toText = x.value.toText)
      (hstore : s.Renamed r t) : Alike r (.ok x s) (.ok y t)

theorem Agreement.Outcome.alike {r : Renaming} {w : Extent}
    {x y : EStateM.Result EvalError Store Evaluated}
    (h : (Agreement.renamed r).Outcome w (Agreement.renamed r).valued x y) : Alike r x y := by
  cases h with
  | ok hlater hresult hstore =>
      exact .ok hresult.1 ((Agreement.renamed r).layer hresult).kindName_eq
        (Agreement.toText_eq hresult) hstore.2.2
  | error hlater hshared hstore =>
      exact .error _ hstore.2.2
  | excused h =>
      exact h.elim

namespace Interpreter

variable {i : Interpreter} {s t : Store} {scope : ScopeId} {e : Expr}

/-- On a store that has grown an evaluation gives the renamed outcome. -/
theorem evalAt_renamed (hi : i.Ample) (hs : s.Closed) (hgrows : s.GrowsTo t)
    (hscope : scope.Within s.extent) (he : e.Within s.extent) (levels : Nat) (mode : LookupMode) :
    let A := Agreement.renamed (.shift s.extent t.extent)
    A.Outcome s.extent A.evaluated (i.evalAt levels scope e mode s)
      (i.evalAt levels scope e mode t) := by
  have hfixes := Renaming.shift_fixes s.extent t.extent
  exact Agreement.renamed_evalAt hi _ levels mode ⟨(hfixes.1 scope hscope).symm, hscope⟩
    ⟨(hfixes.expr e he).symm, he⟩ s t ⟨rfl, hs, hgrows.renamed hs⟩

theorem execute_renamed (hi : i.Ample) (hs : s.Closed) (hgrows : s.GrowsTo t)
    (hscope : scope.Within s.extent) (he : e.Within s.extent) (mode : LookupMode) :
    let A := Agreement.renamed (.shift s.extent t.extent)
    A.Outcome s.extent A.evaluated (i.execute scope e mode s) (i.execute scope e mode t) := by
  rw [execute, execute, hgrows.inFlight_eq]
  exact evalAt_renamed hi hs hgrows hscope he _ mode

/--
A discarded evaluation cannot be observed.  An expression that is evaluated
after it gives the same error as without it, or a value of the same kind and
text, which is the same up to the numbers of new scopes and functions, in a
scope of the same depth.
-/
theorem execute_after_discarded {s : Store} {scope : ScopeId} {e₁ e₂ : Expr} (hs : s.Closed)
    (hscope : scope.Within s.extent) (he₁ : e₁.Within s.extent) (he₂ : e₂.Within s.extent)
    (mode₁ mode₂ : LookupMode) (limit : Nat) :
    let t := EvalM.storeAfter ((limited limit).execute scope e₁ mode₁ s)
    ∃ r : Renaming, r.Fixes s.extent ∧
      Alike r ((limited limit).execute scope e₂ mode₂ s)
        ((limited limit).execute scope e₂ mode₂ t) ∧
      ∀ x y s' t', (limited limit).execute scope e₂ mode₂ s = .ok x s' →
        (limited limit).execute scope e₂ mode₂ t = .ok y t' →
        y.scope = r.scope x.scope ∧ t'.forest.depth y.scope = s'.forest.depth x.scope := by
  intro t
  have hgrows : s.GrowsTo t := execute_growsTo (limited_ample limit) hs hscope he₁ mode₁
  have houtcome := execute_renamed (limited_ample limit) hs hgrows hscope he₂ mode₂
  refine ⟨_, Renaming.shift_fixes s.extent t.extent, ?_, ?_⟩
  · apply Agreement.Outcome.alike
    apply houtcome.mono
    intro _ _ _ _ hresult
    exact hresult.1
  · intro x y s' t' hx hy
    rw [hx, hy] at houtcome
    cases houtcome with
    | ok hlater hresult hstore =>
        obtain ⟨_, hsame, _⟩ := hresult
        rw [hsame]
        exact ⟨rfl, hstore.2.2.depth_eq x.scope⟩

/-- A new function, which is numbered after all others: `(defn f (x) (1+ x))`. -/
def increasing : Expr :=
  .list [.atom "defn", .atom "f", .list [.atom "x"], .list [.atom "1+", .atom "x"]]

theorem execute_after_discarded_increasing :
    Store.library.Closed ∧ Store.first.Within Store.library.extent ∧
    increasing.Within Store.library.extent ∧
    let t := EvalM.storeAfter ((limited 10).execute Store.first increasing .nearest Store.library)
    ∃ r : Renaming, r.Fixes Store.library.extent ∧
      Alike r ((limited 10).execute Store.first increasing .nearest Store.library)
        ((limited 10).execute Store.first increasing .nearest t) ∧
      ∀ x y s' t', (limited 10).execute Store.first increasing .nearest Store.library = .ok x s' →
        (limited 10).execute Store.first increasing .nearest t = .ok y t' →
        y.scope = r.scope x.scope ∧ t'.forest.depth y.scope = s'.forest.depth x.scope := by
  have he : increasing.Within Store.library.extent := by
    simp [increasing, Expr.Within, Expr.WithinAll]
  exact ⟨Store.closed_library, Store.first_within_library, he,
    execute_after_discarded Store.closed_library Store.first_within_library he he .nearest
      .nearest 10⟩

/-!
# Calls

A call gives the same from any two scopes, on a store and on what the store has
grown to, as long as its arguments are quoted values.
-/

theorem gives_quoted {r : Renaming} {w : Extent} {v v' : Expr}
    (hv : (Agreement.renamed r).expr w v v') (levels : Nat) (a b : ScopeId) :
    (Agreement.renamed r).Gives w (i.evalAt levels a · .nearest) (i.evalAt levels b · .nearest)
      (.quoted v) (.quoted v') := by
  intro w' hlater
  cases levels with
  | zero =>
      intro s s' hs
      exact .error (Agreement.later_refl _ w') trivial hs
  | succ levels =>
      simp only [evalAt_succ]
      apply Agreement.renamed_counted
      exact Agreement.Acts.pure ((Agreement.renamed r).expr_later hlater hv)

theorem execute_call_alike (hi : i.Ample) (hs : s.Closed) (hgrows : s.GrowsTo t) {a b : ScopeId}
    {name : String} {identity : Identity} {params : List String} {body : List Expr}
    (ha : s.lookup a name .nearest = some (.lambda identity params body))
    (hb : t.lookup b name .nearest = some (.lambda identity params body))
    {values : List Expr} (hvalues : Expr.WithinAll s.extent values) (mode mode' : LookupMode) :
    Alike (.shift s.extent t.extent)
      (i.execute a (.list (.atom name :: values.map .quoted)) mode s)
      (i.execute b (.list (.atom name :: values.map .quoted)) mode' t) := by
  have hfixes := Renaming.shift_fixes s.extent t.extent
  have hrenamed := hgrows.renamed hs
  have hfunction := hs.lookup_within ha
  let A := Agreement.renamed (.shift s.extent t.extent)
  have hhome : A.scope s.extent identity.home identity.home :=
    ⟨(hfixes.1 _ hfunction.1.2).symm, hfunction.1.2⟩
  have hbody : A.expr s.extent (.list body) (.list body) :=
    ⟨(hfixes.expr (.list body) hfunction.2).symm, hfunction.2⟩
  rw [execute, execute, hgrows.inFlight_eq]
  cases i.limit - s.inFlight with
  | zero =>
      exact .error _ hrenamed
  | succ levels =>
      rw [evalAt_call hi ha, evalAt_call hi hb]
      apply Agreement.Outcome.alike
      apply Agreement.renamed_counted _ s t ⟨rfl, hs, hrenamed⟩
      apply Agreement.call_valued (Agreement.renamed_evalAt hi _ levels) name params hhome hbody
      rw [List.forall₂_map_left_iff, List.forall₂_map_right_iff, List.forall₂_same]
      intro v hmem
      have hv := Expr.withinAll_iff.mp hvalues v hmem
      exact gives_quoted ⟨(hfixes.expr v hv).symm, hv⟩ levels a b

end Interpreter

/-!
# Sessions

Whether an evaluation fails or not, the session goes on with a store that has
grown.
-/

namespace Session

structure Sound (s : Session) : Prop where
  ample : s.interpreter.Ample
  closed : s.store.Closed
  scope_within : s.scope.Within s.store.extent
  idle : s.store.inFlight = 0

/--
A later moment of a session.  Any expressions were evaluated meanwhile, in the
scope of the session or elsewhere, with or without success.
-/
inductive LeadsTo (s : Session) : Session → Prop where
  | refl : LeadsTo s s
  | eval {t : Session} {scope : ScopeId} {e : Expr} (h : LeadsTo s t)
      (hscope : scope.Within t.store.extent) (he : e.Within t.store.extent) :
      LeadsTo s (Session.eval { t with scope := scope } e).2

theorem start_sound (limit : Nat) : (start (.limited limit)).Sound where
  ample := Interpreter.limited_ample limit
  closed := Store.closed_library
  scope_within := Store.first_within_library
  idle := rfl

theorem Sound.eval {s : Session} (h : s.Sound) {e : Expr} (he : e.Within s.store.extent) :
    s.store.GrowsTo (s.eval e).2.store ∧ (s.eval e).2.Sound := by
  have hgrows := (Interpreter.evalAt_growsTo h.ample h.closed h.scope_within he
    s.interpreter.limit .nearest).1
  unfold Session.eval Interpreter.eval
  cases hrun : s.interpreter.evalAt s.interpreter.limit s.scope e .nearest s.store with
  | ok result t =>
      rw [hrun] at hgrows
      have hscope := (Interpreter.evalAt_ok_within h.ample h.closed h.scope_within he hrun).2
      exact ⟨hgrows, h.ample, hgrows.closed, hscope, hgrows.inFlight_eq.trans h.idle⟩
  | error error t =>
      rw [hrun] at hgrows
      have hscope : s.scope.Within t.extent := Nat.lt_of_lt_of_le h.scope_within hgrows.covers.1
      exact ⟨hgrows, h.ample, hgrows.closed, hscope, hgrows.inFlight_eq.trans h.idle⟩

theorem LeadsTo.grows {s t : Session} (h : s.LeadsTo t) (hs : s.Sound) :
    s.store.GrowsTo t.store ∧ t.Sound := by
  induction h with
  | refl =>
      exact ⟨hs.closed.growsTo_self, hs⟩
  | @eval t scope e _ hscope he ih =>
      obtain ⟨hgrows, ht⟩ := ih
      have hmoved : Sound { t with scope := scope } := ⟨ht.ample, ht.closed, hscope, ht.idle⟩
      obtain ⟨hgrows', ht'⟩ := hmoved.eval he
      exact ⟨hgrows.trans hgrows', ht'⟩

/--
Functions are isolated from their callers and from all that comes after them.  A
name that stands for the same function in two scopes, at two moments of a
session, gives outcomes that are alike when it is called on the same values,
whatever else the two scopes bind and whatever was evaluated in between.
-/
theorem call_isolated {limit : Nat} {first second : Session}
    (hfirst : (start (.limited limit)).LeadsTo first) (hsecond : first.LeadsTo second)
    {a b : ScopeId} {name : String} {identity : Identity} {params : List String} {body : List Expr}
    (ha : first.store.lookup a name .nearest = some (.lambda identity params body))
    (hb : second.store.lookup b name .nearest = some (.lambda identity params body))
    {values : List Expr} (hvalues : ∀ v ∈ values, v.Within first.store.extent)
    (mode mode' : LookupMode) (n : Nat) :
    ∃ r : Renaming, r.Fixes first.store.extent ∧
      Alike r
        ((Interpreter.limited n).eval a (.list (.atom name :: values.map .quoted)) mode
          first.store)
        ((Interpreter.limited n).eval b (.list (.atom name :: values.map .quoted)) mode'
          second.store) := by
  obtain ⟨_, hsound⟩ := hfirst.grows (start_sound limit)
  obtain ⟨hgrows, hsound'⟩ := hsecond.grows hsound
  refine ⟨_, Renaming.shift_fixes first.store.extent second.store.extent, ?_⟩
  rw [Interpreter.eval_eq_execute _ hsound.idle, Interpreter.eval_eq_execute _ hsound'.idle]
  exact Interpreter.execute_call_alike (Interpreter.limited_ample n) hsound.closed hgrows ha hb
    (Expr.withinAll_iff.mpr hvalues) mode mode'

/-- A session after `(defn f (x) (+ x z))`, where nothing binds `z`. -/
def declared : Session :=
  ((start (.limited 10)).eval (.list [.atom "defn", .atom "f", .list [.atom "x"],
    .list [.atom "+", .atom "x", .atom "z"]])).2

/-- The same session after `(let ((z 1)))`. -/
def shadowed : Session :=
  (declared.eval (.list [.atom "let", .list [.list [.atom "z", .num .one]]])).2

theorem call_isolated_shadowed :
    declared.store.lookup declared.scope "z" .nearest = none ∧
    shadowed.store.lookup shadowed.scope "z" .nearest = some (.num .one) ∧
    (start (.limited 10)).LeadsTo declared ∧ declared.LeadsTo shadowed ∧
    ∃ r : Renaming, r.Fixes declared.store.extent ∧
      Alike r
        ((Interpreter.limited 10).eval declared.scope (.list [.atom "f", .quoted (.num .one)])
          .nearest declared.store)
        ((Interpreter.limited 10).eval shadowed.scope (.list [.atom "f", .quoted (.num .one)])
          .nearest shadowed.store) := by
  have hfirst : (start (.limited 10)).LeadsTo declared :=
    .eval .refl (start_sound 10).scope_within (by simp [Expr.Within, Expr.WithinAll])
  have hscope := (hfirst.grows (start_sound 10)).2.scope_within
  have hsecond : declared.LeadsTo shadowed :=
    .eval .refl hscope (by simp [Expr.Within, Expr.WithinAll])
  have hvalues : ∀ v ∈ [Expr.num .one], v.Within declared.store.extent := by
    simp [Expr.Within]
  have hbefore : declared.store.lookup declared.scope "f" .nearest =
      some (.lambda ⟨18, Store.first⟩ ["x"] [.atom "+", .atom "x", .atom "z"]) := rfl
  have hafter : shadowed.store.lookup shadowed.scope "f" .nearest =
      some (.lambda ⟨18, Store.first⟩ ["x"] [.atom "+", .atom "x", .atom "z"]) := rfl
  exact ⟨rfl, rfl, hfirst, hsecond,
    call_isolated hfirst hsecond hbefore hafter hvalues .nearest .nearest 10⟩

end Session
end ScopeLisp
