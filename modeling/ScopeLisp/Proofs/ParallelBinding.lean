import ScopeLisp.Proofs.Bindings
import ScopeLisp.Proofs.Independence
import ScopeLisp.Proofs.ScopeFilling

/-!
# Bindings in parallel

## Each pair by itself

A binding form evaluates its expressions one after the other, while the scope
that it has opened fills up.  Each expression gives what it gives alone, in the
store before the form, and the first pair that fails is known from this.

## Any order

Neighbours may change places, and so the pairs may stand in any order.  Values
and stores are the same up to the numbers of new scopes and functions.
-/

namespace ScopeLisp

/-!
# The first failure

A pair fails when its expression fails alone, or when an earlier pair has its
name.
-/

section First

variable {α : Type} {f : Nat → Option α} {a b : α}

theorem exists_first_of_zero (h : f 0 = some b) :
    (∃ k, f k = some a ∧ ∀ j < k, f j = none) ↔ b = a := by
  constructor
  · intro hfirst
    rcases hfirst with ⟨k, hk, hbefore⟩
    cases k with
    | zero =>
        rw [h] at hk
        exact Option.some.inj hk
    | succ k =>
        have hnone := hbefore 0 (Nat.succ_pos k)
        rw [h] at hnone
        cases hnone
  · intro hsame
    exact ⟨0, hsame ▸ h, fun j hj => absurd hj (Nat.not_lt_zero j)⟩

theorem exists_first_succ (h : f 0 = none) :
    (∃ k, f k = some a ∧ ∀ j < k, f j = none) ↔
      ∃ k, f (k + 1) = some a ∧ ∀ j < k, f (j + 1) = none := by
  constructor
  · intro hfirst
    rcases hfirst with ⟨k, hk, hbefore⟩
    cases k with
    | zero =>
        rw [h] at hk
        cases hk
    | succ k =>
        exact ⟨k, hk, fun j hj => hbefore (j + 1) (Nat.succ_lt_succ hj)⟩
  · intro hfirst
    rcases hfirst with ⟨k, hk, hbefore⟩
    refine ⟨k + 1, hk, ?_⟩
    intro j hj
    cases j with
    | zero =>
        exact h
    | succ j =>
        exact hbefore j (Nat.lt_of_succ_lt_succ hj)

end First

namespace Interpreter

/--
Why a pair fails behind earlier ones, if it does: its expression fails alone, or an
earlier pair has the same name.
-/
def failure? (i : Interpreter) (levels : Nat) (scope : ScopeId) (s : Store)
    (earlier : List (String × Expr)) (pair : String × Expr) : Option EvalError :=
  match i.alone levels scope .nearest s pair.2 with
  | .error error => some error
  | .ok _ => if pair.1 ∈ earlier.map Prod.fst then some (.rebind pair.1) else none

def firstFailure? (i : Interpreter) (levels : Nat) (scope : ScopeId) (s : Store) :
    (earlier : List (String × Expr)) → List (String × Expr) → Option EvalError
  | _, [] => none
  | earlier, pair :: rest =>
      (i.failure? levels scope s earlier pair).or
        (i.firstFailure? levels scope s (earlier ++ [pair]) rest)

def failureAt? (i : Interpreter) (levels : Nat) (scope : ScopeId) (s : Store)
    (earlier pairs : List (String × Expr)) (k : Nat) : Option EvalError :=
  pairs[k]?.bind (i.failure? levels scope s (earlier ++ pairs.take k))

section Failures

variable {i : Interpreter} {levels : Nat} {scope : ScopeId} {s s₁ : Store}
  {earlier : List (String × Expr)} {pair : String × Expr}

theorem failure?_of_error {error : EvalError}
    (h : i.evalAt levels scope pair.2 .nearest s = .error error s₁)
    (earlier : List (String × Expr)) : i.failure? levels scope s earlier pair = some error := by
  rw [failure?, alone, h]
  rfl

theorem failure?_of_ok {x : Evaluated}
    (h : i.evalAt levels scope pair.2 .nearest s = .ok x s₁)
    (earlier : List (String × Expr)) :
    i.failure? levels scope s earlier pair =
      if pair.1 ∈ earlier.map Prod.fst then some (.rebind pair.1) else none := by
  rw [failure?, alone, h]
  rfl

theorem failure?_eq_none_iff : i.failure? levels scope s earlier pair = none ↔
    (∃ x s₁, i.evalAt levels scope pair.2 .nearest s = .ok x s₁) ∧
      pair.1 ∉ earlier.map Prod.fst := by
  cases hrun : i.evalAt levels scope pair.2 .nearest s with
  | error error s₁ =>
      rw [failure?_of_error hrun]
      simp
  | ok x s₁ =>
      rw [failure?_of_ok hrun]
      simp

theorem firstFailure?_eq_none_iff {earlier pairs : List (String × Expr)} :
    i.firstFailure? levels scope s earlier pairs = none ↔
      (∀ pair ∈ pairs, ∃ x s₁, i.evalAt levels scope pair.2 .nearest s = .ok x s₁) ∧
      (pairs.map Prod.fst).Nodup ∧ ∀ pair ∈ pairs, pair.1 ∉ earlier.map Prod.fst := by
  induction pairs generalizing earlier with
  | nil =>
      simp [firstFailure?]
  | cons pair rest ih =>
      have hnames : (∀ other ∈ rest, other.1 ∉ (earlier ++ [pair]).map Prod.fst) ↔
          (∀ other ∈ rest, other.1 ∉ earlier.map Prod.fst) ∧ pair.1 ∉ rest.map Prod.fst := by
        simp only [List.map_append, List.mem_append, not_or, forall_and, List.map_cons,
          List.map_nil, List.mem_singleton]
        refine and_congr_right fun _ => ?_
        rw [List.mem_map, not_exists]
        simp only [not_and]
      rw [firstFailure?, Option.or_eq_none_iff, failure?_eq_none_iff, ih, hnames]
      simp only [List.forall_mem_cons, List.map_cons, List.nodup_cons]
      constructor
      · intro h
        rcases h with ⟨⟨hok, hname⟩, hoks, hnodup, hothers, hnew⟩
        exact ⟨⟨hok, hoks⟩, ⟨hnew, hnodup⟩, hname, hothers⟩
      · intro h
        rcases h with ⟨⟨hok, hoks⟩, ⟨hnew, hnodup⟩, hname, hothers⟩
        exact ⟨⟨hok, hname⟩, hoks, hnodup, hothers, hnew⟩

theorem failureAt?_cons_zero (earlier : List (String × Expr)) (pair : String × Expr)
    (rest : List (String × Expr)) :
    i.failureAt? levels scope s earlier (pair :: rest) 0 =
      i.failure? levels scope s earlier pair := by
  rw [failureAt?, List.take_zero, List.append_nil]
  rfl

theorem failureAt?_cons_succ (earlier : List (String × Expr)) (pair : String × Expr)
    (rest : List (String × Expr)) (k : Nat) :
    i.failureAt? levels scope s earlier (pair :: rest) (k + 1) =
      i.failureAt? levels scope s (earlier ++ [pair]) rest k := by
  rw [failureAt?, failureAt?, List.take_succ_cons, List.append_assoc]
  rfl

theorem firstFailure?_eq_some_iff {earlier pairs : List (String × Expr)} {error : EvalError} :
    i.firstFailure? levels scope s earlier pairs = some error ↔
      ∃ k, i.failureAt? levels scope s earlier pairs k = some error ∧
        ∀ j < k, i.failureAt? levels scope s earlier pairs j = none := by
  induction pairs generalizing earlier with
  | nil =>
      simp [firstFailure?, failureAt?]
  | cons pair rest ih =>
      have hzero : i.failureAt? levels scope s earlier (pair :: rest) 0 =
          i.failure? levels scope s earlier pair := failureAt?_cons_zero earlier pair rest
      rw [firstFailure?]
      cases hfailure : i.failure? levels scope s earlier pair with
      | some error' =>
          rw [exists_first_of_zero (hzero.trans hfailure), Option.some_or, Option.some.injEq]
      | none =>
          rw [exists_first_succ (hzero.trans hfailure), Option.none_or, ih]
          simp only [failureAt?_cons_succ]

end Failures

/-!
# Each pair by itself

In the course of a binding form the names of earlier pairs are bound in the
scope that it opened.  A pair that does not fail is bound, and one that fails
ends the form.
-/

inductive Holds (i : Interpreter) (levels : Nat) (scope : ScopeId) (s : Store)
    (pair : String × Expr) (t : Store) : Prop where
  | intro {x : Evaluated} {s₁ : Store} {r : Renaming}
      (halone : i.evalAt levels scope pair.2 .nearest s = .ok x s₁)
      (hvalue : x.value.Within s₁.extent) (hcarries : s.Carries r s₁ t)
      (hlocal : t.forest.local? s.forest.fresh pair.1 = some (x.value.rename r))

/-- A binding form in its course: the names of earlier pairs are bound in the scope it opened. -/
structure Filling (i : Interpreter) (levels : Nat) (scope : ScopeId) (s : Store)
    (earlier : List (String × Expr)) (u : Store) : Prop where
  grows : s.GrowsTo u
  parent?_eq : u.forest.parent? s.forest.fresh = some scope
  binds_iff (name : String) :
    u.forest.binds s.forest.fresh name = true ↔ name ∈ earlier.map Prod.fst
  holds {pair : String × Expr} : pair ∈ earlier → i.Holds levels scope s pair u

section Filling

variable {i : Interpreter} {levels : Nat} {scope : ScopeId} {s s₁ u t : Store}
  {earlier : List (String × Expr)} {pair : String × Expr} {x : Evaluated}

theorem Filling.inner_within (h : i.Filling levels scope s earlier u) :
    s.forest.fresh.Within u.extent :=
  Forest.index_lt_of_parent? h.parent?_eq

theorem Filling.binds_eq_false (h : i.Filling levels scope s earlier u) {name : String}
    (hname : name ∉ earlier.map Prod.fst) : u.forest.binds s.forest.fresh name = false := by
  rw [← h.binds_iff, Bool.not_eq_true] at hname
  exact hname

theorem filling_nil (hs : s.Closed) (hscope : scope.Within s.extent) :
    i.Filling levels scope s [] (s.addChild scope) where
  grows := hs.growsTo_self.addChild hscope
  parent?_eq := (Forest.parent?_addChild s.forest hscope s.forest.fresh).trans (if_pos rfl)
  binds_iff name := by
    have hnone : s.forest.get? s.forest.fresh = none :=
      (s.forest.get?_eq_none_iff _).mpr (Nat.le_refl _)
    simp only [Store.addChild, Forest.binds]
    rw [Forest.local?_addChild s.forest hscope, Forest.local?, hnone]
    simp
  holds hmem := by
    cases hmem

theorem Holds.later (h : i.Holds levels scope s pair u) (hu : i.Filling levels scope s earlier u)
    (hgrows : u.GrowsBeside s.forest.fresh t)
    (hlocal : t.forest.local? s.forest.fresh pair.1 = u.forest.local? s.forest.fresh pair.1) :
    i.Holds levels scope s pair t := by
  rcases h with ⟨halone, hvalue, hcarries, hbound⟩
  refine ⟨halone, hvalue, hcarries.later hu.grows.covers hu.inner_within hgrows, ?_⟩
  rw [hlocal, hbound, (hcarries.renamed.comp_shift_agreeOn t.extent).expr _ hvalue]

theorem Filling.step (h : i.Filling levels scope s earlier u) (hgrows : s.GrowsTo t)
    (halone : i.evalAt levels scope pair.2 .nearest s = .ok x s₁)
    (hname : pair.1 ∉ earlier.map Prod.fst)
    (hfills : s.Fills pair.1 x.value s₁ u t) : i.Filling levels scope s (earlier ++ [pair]) t where
  grows := hgrows
  parent?_eq := hfills.parent?_eq.trans h.parent?_eq
  binds_iff name := by
    rw [Forest.binds, hfills.local?_eq, List.map_append, List.mem_append, ← h.binds_iff]
    by_cases hsame : name = pair.1
    · simp [hsame]
    · simp [hsame, Forest.binds]
  holds {other} hmem := by
    rcases List.mem_append.mp hmem with hmem | hmem
    · have hne : other.1 ≠ pair.1 := by
        intro hsame
        apply hname
        rw [← hsame]
        exact List.mem_map_of_mem hmem
      exact (h.holds hmem).later h hfills.grows ((hfills.local?_eq other.1).trans (if_neg hne))
    · rw [List.mem_singleton] at hmem
      rw [hmem]
      exact ⟨halone, hfills.value_within, hfills.carries,
        (hfills.local?_eq pair.1).trans (if_pos rfl)⟩

variable (hi : i.Ample) (hs : s.Closed) (hscope : scope.Within s.extent)
include hi hs hscope

theorem Filling.bind (h : i.Filling levels scope s earlier u) (he : pair.2.Within s.extent)
    (halone : i.evalAt levels scope pair.2 .nearest s = .ok x s₁)
    (hname : pair.1 ∉ earlier.map Prod.fst) :
    ∃ t, s.Fills pair.1 x.value s₁ u t ∧ i.Filling levels scope s (earlier ++ [pair]) t ∧
      ∀ rest, bindEach (i.evalAt levels) scope s.forest.fresh (.ok pair :: rest) u =
        bindEach (i.evalAt levels) scope s.forest.fresh rest t := by
  rcases evalAt_again hi hs h.grows hscope he halone with ⟨y, t, hrun, hafter, hsame, hrenamed⟩
  have halone' := evalAt_growsTo hi hs hscope he levels .nearest
  rw [halone] at halone'
  have hscope' : scope.Within u.extent := Nat.lt_of_lt_of_le hscope h.grows.covers.1
  have he' : pair.2.Within u.extent := Expr.Within.mono h.grows.covers pair.2 he
  have hvalue := (evalAt_ok_within hi h.grows.closed hscope' he' hrun).1
  have hfills := Store.fills_set h.grows h.inner_within halone'.1 hafter hrenamed pair.1
    (evalAt_ok_within hi hs hscope he halone).1 hsame
  have hgrows := (h.grows.trans hafter).set (Nat.le_refl _) pair.1 hvalue
  have hfree : t.forest.binds s.forest.fresh pair.1 = false := by
    rw [Forest.binds, hafter.extend.local?_eq h.inner_within]
    exact h.binds_eq_false hname
  exact ⟨_, hfills, h.step hgrows halone hname hfills, bindEach_cons_of_free hrun hfree⟩

theorem Filling.fail (h : i.Filling levels scope s earlier u) (he : pair.2.Within s.extent)
    {error : EvalError} (hfailure : i.failure? levels scope s earlier pair = some error) :
    ∃ t, ∀ rest, bindEach (i.evalAt levels) scope s.forest.fresh (.ok pair :: rest) u =
      .error error t := by
  cases halone : i.evalAt levels scope pair.2 .nearest s with
  | error error' s₁ =>
      rw [failure?_of_error halone] at hfailure
      cases hfailure
      rcases evalAt_again_error hi hs h.grows hscope he halone with ⟨t, hrun, _⟩
      exact ⟨t, bindEach_cons_of_error hrun⟩
  | ok x s₁ =>
      rw [failure?_of_ok halone] at hfailure
      split at hfailure
      · rename_i hname
        cases hfailure
        rcases evalAt_again hi hs h.grows hscope he halone with ⟨y, t, hrun, hafter, _⟩
        have hbound : t.forest.binds s.forest.fresh pair.1 = true := by
          rw [Forest.binds, hafter.extend.local?_eq h.inner_within]
          exact (h.binds_iff pair.1).mpr hname
        exact ⟨t, bindEach_cons_of_bound hrun hbound⟩
      · cases hfailure

/-- The first pair that fails decides.  If there is none, all are bound. -/
theorem Filling.run (h : i.Filling levels scope s earlier u) {pairs : List (String × Expr)}
    (hpairs : ∀ pair ∈ pairs, pair.2.Within s.extent) :
    match i.firstFailure? levels scope s earlier pairs with
    | some error => ∃ t, bindEach (i.evalAt levels) scope s.forest.fresh (pairs.map .ok) u =
        .error error t
    | none => ∃ t, bindEach (i.evalAt levels) scope s.forest.fresh (pairs.map .ok) u = .ok () t ∧
        i.Filling levels scope s (earlier ++ pairs) t := by
  induction pairs generalizing earlier u with
  | nil =>
      rw [List.append_nil]
      exact ⟨u, rfl, h⟩
  | cons pair rest ih =>
      have he := hpairs pair (List.mem_cons_self ..)
      have hrest : ∀ pair ∈ rest, pair.2.Within s.extent :=
        fun other hmem => hpairs other (List.mem_cons_of_mem _ hmem)
      rw [firstFailure?, List.map_cons]
      cases hfailure : i.failure? levels scope s earlier pair with
      | some error =>
          rcases h.fail hi hs hscope he hfailure with ⟨t, hfail⟩
          exact ⟨t, hfail _⟩
      | none =>
          rcases failure?_eq_none_iff.mp hfailure with ⟨⟨x, s₁, halone⟩, hname⟩
          rcases h.bind hi hs hscope he halone hname with ⟨t, _, ht, hbind⟩
          have hlater := ih ht hrest
          rw [List.append_assoc] at hlater
          rw [hbind]
          exact hlater

end Filling

/-!
# Any order

In another order the same pairs are bound, and the stores match.  It is enough
to exchange neighbours, since names are bound alike on stores that match.
-/

section Order

variable {i : Interpreter} {levels : Nat} {scope : ScopeId} {s u t : Store}
  {earlier pairs pairs' : List (String × Expr)}

theorem bindEach_matched (hi : i.Ample) {r : Renaming} {x : Extent} (hfixes : r.Fixes x)
    {inner : ScopeId} (hscope : scope.Within x) (hinner : inner.Within x)
    (hpairs : ∀ pair ∈ pairs, pair.2.Within x) {b d : Store} (hb : b.Closed)
    (hcovers : b.extent.Covers x) (hmatches : b.Matches r d)
    (h : bindEach (i.evalAt levels) scope inner (pairs.map .ok) b = .ok () t) :
    ∃ t', bindEach (i.evalAt levels) scope inner (pairs.map .ok) d = .ok () t' ∧
      t.Matches r t' := by
  let A := Agreement.matched r
  have heval : A.Evaluators (i.evalAt levels) (i.evalAt levels) :=
    (Agreement.matched_uncounted r).evalAt hi levels
  have hscope' : A.scope b.extent scope scope :=
    ⟨(hfixes.1 scope hscope).symm, Nat.lt_of_lt_of_le hscope hcovers.1⟩
  have hinner' : A.opened b.extent inner inner :=
    ⟨(hfixes.1 inner hinner).symm, Nat.lt_of_lt_of_le hinner hcovers.1⟩
  have hgives : List.Forall₂ (Agreement.Pair (A.Gives b.extent (i.evalAt levels scope · .nearest)
      (i.evalAt levels scope · .nearest))) (pairs.map .ok) (pairs.map .ok) := by
    rw [List.forall₂_map_left_iff, List.forall₂_map_right_iff, List.forall₂_same]
    intro pair hmem
    have he := hpairs pair hmem
    exact .ok pair.1 (Agreement.gives_of_expr heval hscope'
      ⟨(hfixes.expr pair.2 he).symm, Expr.Within.mono hcovers pair.2 he⟩)
  have houtcome := Agreement.bindEach hinner' hgives b d ⟨rfl, hb, hmatches⟩
  rw [h] at houtcome
  generalize bindEach (i.evalAt levels) scope inner (pairs.map .ok) d = second at houtcome ⊢
  cases houtcome with
  | ok hlater hresult hstore =>
      exact ⟨_, rfl, hstore.2.2⟩

variable (hi : i.Ample) (hs : s.Closed) (hscope : scope.Within s.extent)
include hi hs hscope

theorem Filling.bind_of_ok (h : i.Filling levels scope s earlier u) {pair : String × Expr}
    (he : pair.2.Within s.extent) {rest : List (Except EvalError (String × Expr))}
    (hrun : bindEach (i.evalAt levels) scope s.forest.fresh (.ok pair :: rest) u = .ok () t) :
    ∃ x s₁ v, i.evalAt levels scope pair.2 .nearest s = .ok x s₁ ∧
      pair.1 ∉ earlier.map Prod.fst ∧ s.Fills pair.1 x.value s₁ u v ∧
      i.Filling levels scope s (earlier ++ [pair]) v ∧
      ∀ rest, bindEach (i.evalAt levels) scope s.forest.fresh (.ok pair :: rest) u =
        bindEach (i.evalAt levels) scope s.forest.fresh rest v := by
  cases hfailure : i.failure? levels scope s earlier pair with
  | none =>
      rcases failure?_eq_none_iff.mp hfailure with ⟨⟨x, s₁, halone⟩, hname⟩
      rcases h.bind hi hs hscope he halone hname with ⟨v, hv⟩
      exact ⟨x, s₁, v, halone, hname, hv⟩
  | some error =>
      rcases h.fail hi hs hscope he hfailure with ⟨t, hfail⟩
      rw [hfail] at hrun
      cases hrun

theorem Filling.swap (h : i.Filling levels scope s earlier u) {first second : String × Expr}
    (hfirst : first.2.Within s.extent) (hsecond : second.2.Within s.extent)
    (hpairs : ∀ pair ∈ pairs, pair.2.Within s.extent)
    (hrun : bindEach (i.evalAt levels) scope s.forest.fresh
      ((first :: second :: pairs).map .ok) u = .ok () t) :
    ∃ r t', bindEach (i.evalAt levels) scope s.forest.fresh
        ((second :: first :: pairs).map .ok) u = .ok () t' ∧
      r.Fixes u.extent ∧ t.Matches r t' := by
  rcases h.bind_of_ok hi hs hscope hfirst hrun with ⟨x₁, s₁, a, halone₁, hname₁, h₁, ha, hbind₁⟩
  rw [List.map_cons, hbind₁, List.map_cons] at hrun
  rcases ha.bind_of_ok hi hs hscope hsecond hrun with
    ⟨x₂, s₂, b, halone₂, hname₂, h₂, hb, hbind₂⟩
  rw [hbind₂] at hrun
  simp only [List.map_append, List.mem_append, List.map_cons, List.map_nil, List.mem_singleton,
    not_or] at hname₂
  rcases h.bind hi hs hscope hsecond halone₂ hname₂.1 with ⟨c, h₂', hc, hbind₂'⟩
  have hname₁' : first.1 ∉ (earlier ++ [second]).map Prod.fst := by
    simp [hname₁, Ne.symm hname₂.2]
  rcases hc.bind hi hs hscope hfirst halone₁ hname₁' with ⟨d, h₁', hd, hbind₁'⟩
  rcases Store.exists_exchanges h.grows h₁ h₂ h₂' h₁' with ⟨r, hr⟩
  have hmatches := hr.toMatches h.grows h₁ h₂ h₂' h₁' h.inner_within (Ne.symm hname₂.2)
  have hscope' : scope.Within u.extent := Nat.lt_of_lt_of_le hscope h.grows.covers.1
  have hpairs' : ∀ pair ∈ pairs, pair.2.Within u.extent := fun pair hmem =>
    Expr.Within.mono h.grows.covers pair.2 (hpairs pair hmem)
  rcases bindEach_matched hi hr.fixes hscope' h.inner_within hpairs' hb.grows.closed
    (h₂.grows.covers.trans h₁.grows.covers) hmatches hrun with ⟨t', hrun', hlater⟩
  refine ⟨r, t', ?_, hr.fixes, hlater⟩
  rw [List.map_cons, hbind₂', List.map_cons, hbind₁']
  exact hrun'

/-- In another order the same pairs are bound, and the stores match. -/
theorem Filling.perm (hperm : pairs.Perm pairs') :
    ∀ {earlier : List (String × Expr)} {u t : Store}, (∀ pair ∈ pairs, pair.2.Within s.extent) →
      i.Filling levels scope s earlier u →
      bindEach (i.evalAt levels) scope s.forest.fresh (pairs.map .ok) u = .ok () t →
      ∃ r t', bindEach (i.evalAt levels) scope s.forest.fresh (pairs'.map .ok) u = .ok () t' ∧
        r.Fixes u.extent ∧ t.Matches r t' := by
  -- The pairs in front may be any, since a common first pair leads on to another store.
  induction hperm with
  | nil =>
      intro earlier u t _ _ hrun
      exact ⟨.same, t, hrun, Renaming.same_fixes _, t.matches_same⟩
  | @cons pair rest rest' _ ih =>
      intro earlier u t hpairs h hrun
      have he := hpairs pair (List.mem_cons_self ..)
      rcases h.bind_of_ok hi hs hscope he hrun with ⟨x, s₁, v, _, _, hfills, hv, hbind⟩
      rw [List.map_cons, hbind] at hrun
      rcases ih (fun other hmem => hpairs other (List.mem_cons_of_mem _ hmem)) hv hrun with
        ⟨r, t', hrun', hfixes, hmatches⟩
      rw [← hbind] at hrun'
      exact ⟨r, t', hrun', hfixes.mono hfills.grows.covers, hmatches⟩
  | swap second first rest =>
      intro earlier u t hpairs h hrun
      have hrest : ∀ pair ∈ rest, pair.2.Within s.extent := fun pair hmem =>
        hpairs pair (List.mem_cons_of_mem _ (List.mem_cons_of_mem _ hmem))
      exact h.swap hi hs hscope (hpairs first (List.mem_cons_self ..))
        (hpairs second (List.mem_cons_of_mem _ (List.mem_cons_self ..))) hrest hrun
  | trans hperm _ ih ih' =>
      intro earlier u t hpairs h hrun
      rcases ih hpairs h hrun with ⟨r, t', hrun', hfixes, hmatches⟩
      rcases ih' (fun pair hmem => hpairs pair (hperm.mem_iff.mpr hmem)) h hrun' with
        ⟨r', t'', hrun'', hfixes', hmatches'⟩
      exact ⟨r.comp r', t'', hrun'', hfixes.comp hfixes', hmatches.trans hmatches'⟩

end Order

/-!
# Binding forms

A binding form is the loop over its pairs, between opening a scope and giving
null in it.
-/

def bindingList (pairs : List (String × Expr)) : Expr :=
  .list (pairs.map fun pair => .list [.atom pair.1, pair.2])

section Forms

variable {i : Interpreter} {levels : Nat} {scope : ScopeId} {s : Store}

theorem bindingsForm_bindingList (eval : Evaluator) (scope : ScopeId)
    (pairs : List (String × Expr)) (s : Store) :
    bindingsForm eval scope [bindingList pairs] s =
      (bindEach eval scope s.forest.fresh (pairs.map .ok) >>= fun _ =>
        pure ⟨.null, s.forest.fresh⟩) (s.addChild scope) := by
  rw [bindingList, bindingsForm_list, List.map_map]
  rfl

theorem bindingsForm_of_ok {eval : Evaluator} {pairs : List (String × Expr)} {t : Store}
    (h : bindEach eval scope s.forest.fresh (pairs.map .ok) (s.addChild scope) = .ok () t) :
    bindingsForm eval scope [bindingList pairs] s = .ok ⟨.null, s.forest.fresh⟩ t := by
  rw [bindingsForm_bindingList, EvalM.bind_of_eq_ok h]
  rfl

theorem bindingsForm_of_error {eval : Evaluator} {pairs : List (String × Expr)} {t : Store}
    {error : EvalError}
    (h : bindEach eval scope s.forest.fresh (pairs.map .ok) (s.addChild scope) = .error error t) :
    bindingsForm eval scope [bindingList pairs] s = .error error t := by
  rw [bindingsForm_bindingList, EvalM.bind_of_eq_error h]

theorem Holds.alike {pair : String × Expr} {t : Store} (h : i.Holds levels scope s pair t) :
    ∃ value r, t.forest.local? s.forest.fresh pair.1 = some value ∧ r.Fixes s.extent ∧
      Alike r (i.evalAt levels scope pair.2 .nearest s) (.ok ⟨value, scope⟩ t) := by
  rcases h with @⟨x, s₁, r, halone, hvalue, hcarries, hlocal⟩
  have hexpr : (Agreement.renamed r).expr s₁.extent x.value (x.value.rename r) := ⟨rfl, hvalue⟩
  refine ⟨_, r, hlocal, hcarries.fixes, ?_⟩
  rw [halone]
  exact .ok rfl ((Agreement.renamed r).layer hexpr).kindName_eq (Agreement.toText_eq hexpr)
    hcarries.renamed

section Outcomes

variable (hi : i.Ample) (hs : s.Closed) (hscope : scope.Within s.extent)
  {pairs : List (String × Expr)} (hpairs : ∀ pair ∈ pairs, pair.2.Within s.extent)
include hi hs hscope hpairs

theorem bindingsForm_of_firstFailure? {error : EvalError}
    (h : i.firstFailure? levels scope s [] pairs = some error) :
    ∃ t, bindingsForm (i.evalAt levels) scope [bindingList pairs] s = .error error t := by
  have hempty : i.Filling levels scope s [] (s.addChild scope) := filling_nil hs hscope
  have hrun := hempty.run hi hs hscope hpairs
  rw [h] at hrun
  rcases hrun with ⟨t, hrun⟩
  exact ⟨t, bindingsForm_of_error hrun⟩

theorem bindingsForm_of_no_failure (h : i.firstFailure? levels scope s [] pairs = none) :
    ∃ t, bindingsForm (i.evalAt levels) scope [bindingList pairs] s =
        .ok ⟨.null, s.forest.fresh⟩ t ∧
      bindEach (i.evalAt levels) scope s.forest.fresh (pairs.map .ok) (s.addChild scope) =
        .ok () t ∧ i.Filling levels scope s pairs t := by
  have hempty : i.Filling levels scope s [] (s.addChild scope) := filling_nil hs hscope
  have hrun := hempty.run hi hs hscope hpairs
  rw [h] at hrun
  rcases hrun with ⟨t, hrun, hfilling⟩
  exact ⟨t, bindingsForm_of_ok hrun, hrun, hfilling⟩

/-!
# Success and failure

A binding form succeeds just when no pair fails.
-/

theorem exists_bindingsForm_eq_ok_iff :
    (∃ result t, bindingsForm (i.evalAt levels) scope [bindingList pairs] s = .ok result t) ↔
      i.firstFailure? levels scope s [] pairs = none := by
  constructor
  · intro h
    rcases h with ⟨result, t, hform⟩
    cases hfirst : i.firstFailure? levels scope s [] pairs with
    | none =>
        rfl
    | some error =>
        rcases bindingsForm_of_firstFailure? hi hs hscope hpairs hfirst with ⟨t', hfailed⟩
        rw [hform] at hfailed
        cases hfailed
  · intro hfirst
    rcases bindingsForm_of_no_failure hi hs hscope hpairs hfirst with ⟨t, hform, _⟩
    exact ⟨_, t, hform⟩

theorem exists_bindingsForm_eq_error_iff {error : EvalError} :
    (∃ t, bindingsForm (i.evalAt levels) scope [bindingList pairs] s = .error error t) ↔
      i.firstFailure? levels scope s [] pairs = some error := by
  constructor
  · intro h
    rcases h with ⟨t, hform⟩
    cases hfirst : i.firstFailure? levels scope s [] pairs with
    | none =>
        rcases bindingsForm_of_no_failure hi hs hscope hpairs hfirst with ⟨t', hbound, _⟩
        rw [hform] at hbound
        cases hbound
    | some error' =>
        rcases bindingsForm_of_firstFailure? hi hs hscope hpairs hfirst with ⟨t', hfailed⟩
        rw [hform] at hfailed
        cases hfailed
        rfl
  · exact bindingsForm_of_firstFailure? hi hs hscope hpairs

end Outcomes

end Forms

/--
A binding form binds in parallel.  It succeeds just when its names are distinct and each
expression succeeds alone, in the store before the form.  It then gives null in a new
scope under the given one, which binds these names and no others, each to a value that is
alike to that of its expression alone.  In any other order the pairs are bound as well,
and only new scopes and functions have other numbers.  Otherwise the first pair that
fails decides: it fails as its expression fails alone or, if that succeeds, because an
earlier pair has its name.
-/
theorem bindings_in_parallel {limit : Nat} {s : Store} {scope : ScopeId} (hs : s.Closed)
    (hscope : scope.Within s.extent) (levels : Nat) {pairs : List (String × Expr)}
    (hpairs : ∀ pair ∈ pairs, pair.2.Within s.extent) :
    let form := fun pairs =>
      Builtin.bindings.body ((limited limit).evalAt levels) scope [bindingList pairs] s
    let alone := fun e => (limited limit).evalAt levels scope e .nearest s
    let failureAt := (limited limit).failureAt? levels scope s [] pairs
    let inner := s.forest.fresh
    ((∃ result t, form pairs = .ok result t) ↔
      (pairs.map Prod.fst).Nodup ∧ ∀ pair ∈ pairs, ∃ result t, alone pair.2 = .ok result t) ∧
    (∀ result t, form pairs = .ok result t →
      result = ⟨.null, inner⟩ ∧ t.forest.parent? inner = some scope ∧
      (∀ name, t.forest.binds inner name = true ↔ name ∈ pairs.map Prod.fst) ∧
      (∀ pair ∈ pairs, ∃ value r, t.forest.local? inner pair.1 = some value ∧
        r.Fixes s.extent ∧ Alike r (alone pair.2) (.ok ⟨value, scope⟩ t)) ∧
      ∀ pairs', pairs.Perm pairs' → ∃ r t', form pairs' = .ok ⟨.null, inner⟩ t' ∧
        r.Fixes s.extent ∧ r.scope inner = inner ∧ t.Matches r t') ∧
    ∀ error, (∃ t, form pairs = .error error t) ↔
      ∃ k, failureAt k = some error ∧ ∀ j < k, failureAt j = none := by
  intro form alone failureAt inner
  have hi := limited_ample limit
  refine ⟨?_, ?_, ?_⟩
  · refine (exists_bindingsForm_eq_ok_iff hi hs hscope hpairs).trans ?_
    rw [firstFailure?_eq_none_iff]
    constructor
    · intro h
      exact ⟨h.2.1, h.1⟩
    · intro h
      exact ⟨h.2, h.1, fun pair _ => List.not_mem_nil⟩
  · intro result t h
    have hfirst := (exists_bindingsForm_eq_ok_iff hi hs hscope hpairs).mp ⟨result, t, h⟩
    rcases bindingsForm_of_no_failure hi hs hscope hpairs hfirst with ⟨t', hform, hrun, hfilling⟩
    cases h.symm.trans hform
    refine ⟨rfl, hfilling.parent?_eq, hfilling.binds_iff, ?_, ?_⟩
    · intro pair hmem
      exact (hfilling.holds hmem).alike
    · intro pairs' hperm
      have hempty : (limited limit).Filling levels scope s [] (s.addChild scope) :=
        filling_nil hs hscope
      rcases Filling.perm hi hs hscope hperm hpairs hempty hrun with
        ⟨r, t', hrun', hfixes, hmatches⟩
      exact ⟨r, t', bindingsForm_of_ok hrun', hfixes.mono hempty.grows.covers,
        hfixes.1 inner hempty.inner_within, hmatches⟩
  · intro error
    exact (exists_bindingsForm_eq_error_iff hi hs hscope hpairs).trans firstFailure?_eq_some_iff

/--
Two functions may be bound in either order, although they are created one after the
other.  In `(let ((x "a") (x "b") (y ())))` the second pair fails, before the third.
-/
theorem bindings_in_parallel_functions :
    let form := fun pairs =>
      Builtin.bindings.body ((limited 10).evalAt 5) Store.first [bindingList pairs] Store.library
    let functions := [("x", increasing), ("y", increasing)]
    let repeated : List (String × Expr) := [("x", .str "a"), ("x", .str "b"), ("y", .list [])]
    Store.library.Closed ∧ Store.first.Within Store.library.extent ∧
    (∀ pair ∈ functions, pair.2.Within Store.library.extent) ∧
    (∃ t r t', form functions = .ok ⟨.null, Store.library.forest.fresh⟩ t ∧
      form functions.reverse = .ok ⟨.null, Store.library.forest.fresh⟩ t' ∧
      r.Fixes Store.library.extent ∧ t.Matches r t') ∧
    ∃ t, form repeated = .error (.rebind "x") t := by
  intro form functions repeated
  have hfunctions : ∀ pair ∈ functions, pair.2.Within Store.library.extent := by
    simp [functions, increasing, Expr.Within, Expr.WithinAll]
  have hrepeated : ∀ pair ∈ repeated, pair.2.Within Store.library.extent := by
    simp [repeated, Expr.Within, Expr.WithinAll]
  have hbinds := @bindings_in_parallel 10 _ _ Store.closed_library Store.first_within_library 5
    functions hfunctions
  have hfails := @bindings_in_parallel 10 _ _ Store.closed_library Store.first_within_library 5
    repeated hrepeated
  have halone : ∃ result t, (limited 10).evalAt 5 Store.first increasing .nearest Store.library =
      .ok result t := ⟨_, _, rfl⟩
  have hall : ∀ pair ∈ functions, ∃ result t,
      (limited 10).evalAt 5 Store.first pair.2 .nearest Store.library = .ok result t := by
    intro pair hmem
    rcases List.mem_pair.mp hmem with rfl | rfl
    · exact halone
    · exact halone
  rcases hbinds.1.mpr ⟨by decide, hall⟩ with ⟨result, t, hform⟩
  rcases hbinds.2.1 result t hform with ⟨hresult, _, _, _, horders⟩
  rcases horders functions.reverse (List.reverse_perm _).symm with
    ⟨r, t', hform', hfixes, _, hmatches⟩
  refine ⟨Store.closed_library, Store.first_within_library, hfunctions,
    ⟨t, r, t', hresult ▸ hform, hform', hfixes, hmatches⟩, ?_⟩
  apply (hfails.2.2 (.rebind "x")).mpr
  refine ⟨1, rfl, ?_⟩
  intro j hj
  cases Nat.lt_one_iff.mp hj
  rfl

end Interpreter
end ScopeLisp
