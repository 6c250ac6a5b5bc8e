import ScopeLisp.Proofs.AppendOnly
import ScopeLisp.Proofs.Termination

/-!
# Where the lookup mode counts

## The nearest binding

The two modes differ in what they make of a binding to an atom.  A name that is
unbound, or whose nearest binding is something else, has the same value in both.

## The first round

A loop looks a name up in its first round only.  All that it holds later are
lists, and what an invocation asks for has a mode of its own.  So the mode of an
evaluation counts for an expression that is an atom itself, and for no other.
-/

namespace ScopeLisp
namespace Forest

/-!
# The nearest binding

A lookup ends at the nearest binding if the mode accepts it.  The modes tell
exactly the names apart whose nearest binding is an atom.
-/

def nearest? (f : Forest) (id : ScopeId) (name : String) : Option Expr :=
  (f.chain id).findSome? (f.local? · name)

/-- A name whose nearest binding is an atom. -/
def Aliased (f : Forest) (id : ScopeId) (name : String) : Prop :=
  ∃ other, f.nearest? id name = some (.atom other)

variable {f : Forest} {id : ScopeId} {name : String} {mode : LookupMode} {value : Expr}

/-- A lookup ends at the nearest binding if the mode accepts it. -/
theorem lookup_eq_nearest?
    (h : ∀ value, f.nearest? id name = some value → mode.accepts value = true) :
    f.lookup id name mode = f.nearest? id name := by
  rw [lookup_eq_findSome?_local?]
  unfold nearest? at h ⊢
  generalize f.chain id = line at h ⊢
  induction line with
  | nil =>
      rfl
  | cons scope outer ih =>
      simp only [List.findSome?_cons] at h ⊢
      cases hlocal : f.local? scope name with
      | none =>
          rw [hlocal] at h
          exact ih h
      | some value =>
          rw [hlocal] at h
          rw [Option.filter_some_pos (h value rfl)]

theorem accepts_of_lookup (h : f.lookup id name mode = some value) : mode.accepts value = true := by
  rw [lookup_eq_findSome?_local?] at h
  rcases List.exists_of_findSome?_eq_some h with ⟨scope, _, hvalue⟩
  exact (Option.filter_eq_some_iff.mp hvalue).2

theorem lookup_nearest : f.lookup id name .nearest = f.nearest? id name :=
  lookup_eq_nearest? fun _ _ => rfl

theorem lookup_expanding_eq_iff :
    f.lookup id name .expanding = f.lookup id name .nearest ↔ ¬ f.Aliased id name := by
  rw [lookup_nearest]
  constructor
  · rintro hsame ⟨other, hnearest⟩
    rw [hnearest] at hsame
    cases accepts_of_lookup hsame
  · intro hother
    apply lookup_eq_nearest?
    intro value hnearest
    cases value with
    | atom other =>
        exact absurd ⟨other, hnearest⟩ hother
    | _ =>
        rfl

end Forest

namespace Interpreter

variable {i : Interpreter} {eval : Evaluator} {mode mode' : LookupMode} {scope : ScopeId} {e : Expr}
  {s : Store}

/-!
# Loops

A loop may change its mode if this makes no difference to the name that it
starts with.
-/

theorem Loop.change_mode {held : List Expr} {outcome : EStateM.Result EvalError Store Evaluated}
    (h : i.Loop eval mode scope e s held outcome)
    (hsame : ∀ name, e = .atom name → s.lookup scope name mode' = s.lookup scope name mode) :
    i.Loop eval mode' scope e s held outcome := by
  induction h with
  | quoted scope inner s =>
      exact .quoted scope inner s
  | constant scope s hconstant =>
      exact .constant scope s hconstant
  | @atom scope name s hlist =>
      rw [← hsame name rfl] at hlist ⊢
      exact .atom hlist
  | @code scope name s items held outcome hfound _ ih =>
      rw [← hsame name rfl] at hfound
      -- From here on the loop holds lists, about which there is nothing to show.
      exact .code hfound (ih fun _ hatom => nomatch hatom)
  | failure hrun =>
      exact .failure hrun
  | result hrun hlist =>
      exact .result hrun hlist
  | again hrun _ ih =>
      exact .again hrun (ih fun _ hatom => nomatch hatom)

theorem evalWith_change_mode (i : Interpreter) (eval : Evaluator)
    (hsame : ∀ name, e = .atom name → s.lookup scope name mode' = s.lookup scope name mode) :
    i.evalWith eval scope e mode' s = i.evalWith eval scope e mode s := by
  cases e with
  | atom name =>
      show i.settle eval _ ⟨(s.lookup scope name mode').getD .null, scope⟩ s =
        i.settle eval _ ⟨(s.lookup scope name mode).getD .null, scope⟩ s
      rw [hsame name rfl]
  | _ =>
      rfl

theorem evalAt_change_mode (i : Interpreter) (levels : Nat)
    (hsame : ∀ name, e = .atom name → s.lookup scope name mode' = s.lookup scope name mode) :
    i.evalAt levels scope e mode' s = i.evalAt levels scope e mode s := by
  cases levels with
  | zero =>
      rfl
  | succ levels =>
      rw [evalAt_succ, evalAt_succ, EvalM.counted_eq_ended, EvalM.counted_eq_ended,
        i.evalWith_change_mode (s := s.enter) (i.evalAt levels) hsame]

/--
The mode reaches the outermost atom and nothing else.  With any natives and in any
store, both modes give an evaluation the same outcome, with the same store after
it, unless its expression is an atom whose nearest binding is an atom.  This holds
at every level and for every number of rounds.  It holds of the loop without bound
too, which goes through the same expressions in both modes, whatever evaluates the
arguments inside it.  Names whose nearest binding is an atom are told apart.
-/
theorem mode_reaches_outermost_atom (i : Interpreter) (scope : ScopeId) (e : Expr) (s : Store) :
    ((∀ name, e = .atom name → ¬ s.forest.Aliased scope name) →
      (∀ levels, i.evalAt levels scope e .expanding s = i.evalAt levels scope e .nearest s) ∧
      ∀ eval held outcome, i.Loop eval .expanding scope e s held outcome ↔
        i.Loop eval .nearest scope e s held outcome) ∧
    ∀ name, s.lookup scope name .expanding = s.lookup scope name .nearest ↔
      ¬ s.forest.Aliased scope name := by
  refine ⟨?_, fun name => Forest.lookup_expanding_eq_iff⟩
  intro hother
  have hsame (name : String) (hatom : e = .atom name) :
      s.lookup scope name .expanding = s.lookup scope name .nearest :=
    Forest.lookup_expanding_eq_iff.mpr (hother name hatom)
  refine ⟨fun levels => i.evalAt_change_mode levels hsame, ?_⟩
  intro eval held outcome
  constructor
  · intro h
    exact h.change_mode fun name hatom => (hsame name hatom).symm
  · intro h
    exact h.change_mode hsame

/--
A number `x` and natives `n` and `v`, of which `n` gives its arguments as a list and
`v` evaluates its argument with atoms expanded.  Within, `x` is an atom and `c` is the
list `(v x)`.
-/
def forcing : Store :=
  Operation.run (.withHost 10) Store.empty [.addRoot, .bind Store.first "x" (.num .one),
    .register Store.first "n" (.host "list"), .register Store.first "v" (.host "eval"),
    .addChild Store.first, .bind ⟨1⟩ "x" (.atom "a"),
    .bind ⟨1⟩ "c" (.list [.atom "v", .atom "x"])]

theorem mode_reaches_outermost_atom_forcing :
    forcing.forest.Aliased ⟨1⟩ "x" ∧ ¬ forcing.forest.Aliased ⟨1⟩ "c" ∧
    forcing.lookup ⟨1⟩ "x" .expanding ≠ forcing.lookup ⟨1⟩ "x" .nearest ∧
    ∀ e ∈ [.atom "c", .list [.atom "n", .atom "v", .atom "x"]], ∃ t,
      (withHost 10).evalAt 10 ⟨1⟩ e .nearest forcing = .ok ⟨.num .one, ⟨1⟩⟩ t ∧
      (withHost 10).evalAt 10 ⟨1⟩ e .expanding forcing = .ok ⟨.num .one, ⟨1⟩⟩ t := by
  have halias : forcing.forest.Aliased ⟨1⟩ "x" := ⟨"a", rfl⟩
  have hcode : ¬ forcing.forest.Aliased ⟨1⟩ "c" := by
    rintro ⟨other, hnearest⟩
    cases hnearest
  have hmode := mode_reaches_outermost_atom (.withHost 10) ⟨1⟩ (s := forcing)
  refine ⟨halias, hcode, fun hsame => ((hmode .null).2 "x").mp hsame halias, ?_⟩
  intro e hmem
  have hother : ∀ name, e = .atom name → ¬ forcing.forest.Aliased ⟨1⟩ name := by
    rintro name rfl
    simp only [List.mem_cons, Expr.atom.injEq, List.not_mem_nil, or_false, reduceCtorEq] at hmem
    rw [hmem]
    exact hcode
  rw [((hmode e).1 hother).1 10]
  rcases List.mem_cons.mp hmem with rfl | hmem
  · exact ⟨_, rfl, rfl⟩
  · rw [List.mem_singleton.mp hmem]
    exact ⟨_, rfl, rfl⟩

end Interpreter
end ScopeLisp
