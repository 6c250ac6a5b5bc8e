import ScopeLisp.Expr.Equality
import ScopeLisp.Proofs.AppendOnly
import ScopeLisp.Proofs.Tracking
import ScopeLisp.Proofs.WrittenCode

/-!
# The identity of functions

## Functions that there are

A function is bound as soon as it is made, by a definition or a registration, and
a scope keeps what it binds.  So the functions that there are at a moment are
those that occur in bound values, also in the bodies of functions and in data.
All others, in a result, in an argument or in the hands of a host, are copies of
these.

## Moments

What evaluation and a host do to a store is a series of elementary changes, and
each moment of a run lies between two of them.  A number is given to one function
only, so that functions with one number are equal at all moments.
-/

namespace ScopeLisp

def Expr.number? : Expr → Option Nat
  | .native identity _ _ => some identity.number
  | .lambda identity _ _ => some identity.number
  | _ => none

theorem Expr.equal_self_of_number? {f : Expr} {n : Nat} (h : f.number? = some n) :
    f.equal f = true := by
  cases f with
  | native identity name routine => simp [equal]
  | lambda identity params body => simp [equal]
  | _ => cases h

theorem Expr.number?_of_equal {f g : Expr} {n : Nat} (hf : f.number? = some n)
    (h : f.equal g = true) : g.number? = some n := by
  cases f with
  | native identity name routine =>
      cases g with
      | native other name' routine' =>
          rw [equal, decide_eq_true_eq] at h
          rw [← hf, number?, number?, h.1]
      | _ => cases h
  | lambda identity params body =>
      cases g with
      | lambda other params' body' =>
          rw [equal, decide_eq_true_eq] at h
          rw [← hf, number?, number?, h.1]
      | _ => cases h
  | _ => cases hf

namespace Store

/-!
# What is there

A function is there when it occurs in a bound value, and an expression is made
when all its functions are there.
-/

def Bound (s : Store) (e : Expr) : Prop :=
  ∃ id scope name, s.forest.get? id = some scope ∧ (name, e) ∈ scope.bindings

/-- A function that occurs in a bound value. -/
def Has (s : Store) (f : Expr) : Prop :=
  (∃ n, f.number? = some n) ∧ ∃ e, s.Bound e ∧ f.Occurs e

def Made (s : Store) (e : Expr) : Prop :=
  e.Everywhere fun f => (∃ n, f.number? = some n) → s.Has f

/-!
# Elementary changes

A scope is added, a name is bound to something that is made, a function is
defined or registered, or an evaluation begins or ends.  A registration that
fails makes a function that is lost at once.
-/

/-- The elementary changes of a store. -/
inductive Change : Store → Store → Prop where
  | addRoot (s : Store) : Change s s.addRoot
  | addChild (s : Store) (parent : ScopeId) : Change s (s.addChild parent)
  | bind {s : Store} {e : Expr} (h : s.Made e) (id : ScopeId) (name : String) :
      Change s { s with forest := s.forest.set id name e }
  | define {s t : Store} {args : List Expr} {result : Evaluated} (hargs : ∀ e ∈ args, s.Made e)
      (eval : Evaluator) (scope : ScopeId) (h : defineForm eval scope args s = .ok result t) :
      Change s t
  | register (s : Store) (home : ScopeId) (name : String) (routine : Routine) :
      Change s { s.addFunction with
        forest := s.forest.set home name (.native ⟨s.functions, home⟩ name routine) }
  | discard (s : Store) : Change s s.addFunction
  | enter (s : Store) : Change s s.enter
  | leave (s : Store) : Change s s.leave

def Leads : Store → Store → Prop :=
  Relation.ReflTransGen Change

/-!
# Bound values

What is bound stays bound when a forest grows, and a new binding adds one
value.
-/

variable {s t : Store} {e f g : Expr}

theorem binds_bound (s : Store) : s.Binds s.Bound := by
  intro id scope hscope binding hmem
  exact ⟨id, scope, binding.1, hscope, hmem⟩

theorem Binds.of_bound {p : Expr → Prop} (h : s.Binds p) (he : s.Bound e) : p e := by
  rcases he with ⟨id, scope, name, hscope, hmem⟩
  exact h id scope hscope (name, e) hmem

theorem bound_of_local? {id : ScopeId} {name : String} (h : s.forest.local? id name = some e) :
    s.Bound e := by
  rcases Option.bind_eq_some_iff.mp h with ⟨scope, hscope, hlocal⟩
  rcases List.lookup_eq_some_iff.mp hlocal with ⟨before, after, hbindings, _⟩
  exact ⟨id, scope, name, hscope, by simp [hbindings]⟩

theorem Bound.extends (h : s.Bound e) (hforest : t.forest.Extends s.forest) : t.Bound e := by
  rcases h with ⟨id, scope, name, hscope, hmem⟩
  rw [← hforest.2 id (Forest.index_lt_of_get? hscope)] at hscope
  exact ⟨id, scope, name, hscope, hmem⟩

theorem Bound.set (h : s.Bound e) (id : ScopeId) (name : String) (value : Expr) :
    Bound { s with forest := s.forest.set id name value } e := by
  rcases h with ⟨other, scope, key, hscope, hmem⟩
  by_cases hid : id.index = other.index
  · refine ⟨other, scope.insert name value, key, ?_, List.mem_cons_of_mem _ hmem⟩
    simp [Forest.get?_set, hid, hscope]
  · refine ⟨other, scope, key, ?_, hmem⟩
    simp [Forest.get?_set, hid, hscope]

theorem bound_set_self {id : ScopeId} (hid : id.index < s.forest.size) (name : String)
    (value : Expr) : Bound { s with forest := s.forest.set id name value } value := by
  cases hscope : s.forest.get? id with
  | none =>
      exact absurd hid (Nat.not_lt_of_le ((s.forest.get?_eq_none_iff id).mp hscope))
  | some scope =>
      refine ⟨id, scope.insert name value, name, ?_, List.mem_cons_self ..⟩
      simp [Forest.get?_set, hscope]

theorem eq_or_bound_of_set {id : ScopeId} {name : String} {value : Expr}
    (h : Bound { s with forest := s.forest.set id name value } e) : e = value ∨ s.Bound e := by
  have hbinds : s.Binds fun e => e = value ∨ s.Bound e := by
    intro id scope hscope binding hmem
    exact .inr (s.binds_bound id scope hscope binding hmem)
  exact (hbinds.set id name (.inl rfl)).of_bound h

/-!
# Functions in expressions

An expression that is no function is made if its parts are.
-/

theorem Bound.made (h : s.Bound e) : s.Made e := by
  intro f hoccurs hnumber
  exact ⟨hnumber, e, h, hoccurs⟩

theorem Has.mono (hf : s.Has f) (h : ∀ e, s.Bound e → t.Bound e) : t.Has f := by
  rcases hf with ⟨hnumber, e, hbound, hoccurs⟩
  exact ⟨hnumber, e, h e hbound, hoccurs⟩

theorem Made.mono (he : s.Made e) (h : ∀ f, s.Has f → t.Has f) : t.Made e := by
  intro f hoccurs hnumber
  exact h f (he f hoccurs hnumber)

theorem made_of_components (he : e.number? = none)
    (hparts : ∀ part, Expr.Component part e → s.Made part) : s.Made e := by
  refine Expr.everywhere_of_components ?_ hparts
  rintro ⟨n, hn⟩
  rw [he] at hn
  cases hn

theorem made_list {items : List Expr} (h : ∀ e ∈ items, s.Made e) : s.Made (.list items) := by
  refine made_of_components rfl ?_
  intro part hpart
  cases hpart with
  | item hmem => exact h part hmem

theorem made_of_isPlain (h : e.IsPlain) : s.Made e := by
  refine made_of_components ?_ ?_
  · cases h <;> rfl
  · intro part hpart
    cases h <;> cases hpart

end Store

/-!
# Definitions

A definition that is well formed never fails, since nothing is bound in a new
scope.  It gives its function the next number.
-/

theorem list_body_mem_of_definition {args : List Expr} {name : String} {params : List String}
    {body : List Expr} (h : definition args = .ok (name, params, body)) : .list body ∈ args := by
  unfold definition at h
  split at h
  · split at h
    · cases h
    · cases h
      simp
    · cases h
  · cases h
  · cases h
  · cases h

/-- What a definition makes: a function with the next number, bound in a new scope. -/
structure Defines (scope : ScopeId) (args : List Expr) (s t : Store) (function : Expr) : Prop where
  function_eq : ∃ params body, .list body ∈ args ∧
    function = .lambda ⟨s.functions, scope⟩ params body
  functions_eq : t.functions = s.functions + 1
  forest_eq : ∃ name,
    t.forest = (s.forest.addChild scope).set s.forest.fresh name function

theorem defineForm_outcome (eval : Evaluator) (scope : ScopeId) (args : List Expr) (s : Store) :
    (∃ e, defineForm eval scope args s = .error e s) ∨
      ∃ result t, defineForm eval scope args s = .ok result t ∧
        Defines scope args s t result.value := by
  cases hdefinition : definition args with
  | error e =>
      refine .inl ⟨e, ?_⟩
      rw [defineForm, hdefinition]
      rfl
  | ok parts =>
      rcases parts with ⟨name, params, body⟩
      have hbind := EvalM.bindName_fresh s.addFunction scope name
        (.lambda ⟨s.functions, scope⟩ params body)
      have hok : defineForm eval scope args s =
          .ok ⟨.lambda ⟨s.functions, scope⟩ params body, s.forest.fresh⟩
            { s.addFunction.addChild scope with
              forest := (s.forest.addChild scope).set s.forest.fresh name
                (.lambda ⟨s.functions, scope⟩ params body) } := by
        rw [defineForm, hdefinition]
        exact EvalM.bind_of_eq_ok hbind _
      exact .inr ⟨_, _, hok,
        ⟨params, body, list_body_mem_of_definition hdefinition, rfl⟩, rfl, name, rfl⟩

theorem defines_of_defineForm {eval : Evaluator} {scope : ScopeId} {args : List Expr}
    {s t : Store} {result : Evaluated} (h : defineForm eval scope args s = .ok result t) :
    Defines scope args s t result.value := by
  rcases defineForm_outcome eval scope args s with ⟨e, herror⟩ | ⟨result', t', hok, hdefines⟩
  · rw [h] at herror
    cases herror
  · rw [h] at hok
    cases hok
    exact hdefines

/-!
# What a change does

What is newly bound is made of what was there, or it is one function with the
next number.
-/

namespace Store

variable {s t : Store} {e f g : Expr}

/--
What is bound stays so, and what is newly bound is made of what was there or is
one function, with the next number, whose parts are.
-/
structure Evolves (s t : Store) : Prop where
  functions_le : s.functions ≤ t.functions
  bound {e : Expr} : s.Bound e → t.Bound e
  made : ∃ new : Expr, new.number? = some s.functions ∧
    (∀ part, Expr.Component part new → s.Made part) ∧
    ∀ e, t.Bound e → s.Made e ∨ e = new ∧ s.functions < t.functions

theorem evolves_of_made (hfunctions : s.functions ≤ t.functions)
    (hbound : ∀ e, s.Bound e → t.Bound e) (hmade : ∀ e, t.Bound e → s.Made e) :
    s.Evolves t where
  functions_le := hfunctions
  bound {e} := hbound e
  made := by
    refine ⟨.lambda ⟨s.functions, first⟩ [] [], rfl, ?_, fun e he => .inl (hmade e he)⟩
    intro part hpart
    cases hpart with
    | param h => cases h
    | body => exact made_list (by simp)

theorem Change.evolves (h : Change s t) : s.Evolves t := by
  cases h with
  | addRoot =>
      refine evolves_of_made (Nat.le_refl _) ?_ ?_
      · intro e he
        exact he.extends s.forest.extends_addRoot
      · intro e he
        exact (s.binds_bound.addRoot.of_bound he).made
  | addChild parent =>
      refine evolves_of_made (Nat.le_refl _) ?_ ?_
      · intro e he
        exact he.extends (s.forest.extends_addChild parent)
      · intro e he
        exact ((s.binds_bound.addChild parent).of_bound he).made
  | bind hvalue id name =>
      refine evolves_of_made (Nat.le_refl _) ?_ ?_
      · intro e he
        exact he.set id name _
      · intro e he
        rcases eq_or_bound_of_set he with rfl | he
        · exact hvalue
        · exact he.made
  | @define _ args result hargs eval scope h =>
      rcases defines_of_defineForm h with
        ⟨⟨params, body, hbody, hfunction⟩, hfunctions, name, hforest⟩
      have hbound {e : Expr} (he : s.Bound e) : (s.addChild scope).Bound e :=
        he.extends (s.forest.extends_addChild scope)
      have hset {e : Expr} : t.Bound e ↔ Bound { s.addChild scope with
          forest := (s.addChild scope).forest.set s.forest.fresh name result.value } e := by
        unfold Bound
        rw [hforest]
        rfl
      refine ⟨by omega, fun he => hset.mpr ((hbound he).set _ name _), result.value, ?_, ?_, ?_⟩
      · rw [hfunction]
        rfl
      · rw [hfunction]
        intro part hpart
        cases hpart with
        | param => exact made_of_components rfl fun _ hpart => nomatch hpart
        | body => exact hargs _ hbody
      · intro e he
        rcases eq_or_bound_of_set (hset.mp he) with rfl | he
        · exact .inr ⟨rfl, by omega⟩
        · exact .inl ((s.binds_bound.addChild scope).of_bound he).made
  | register home name routine =>
      have hbound {e : Expr} (he : s.Bound e) : s.addFunction.Bound e := he
      refine ⟨Nat.le_succ _, fun he => (hbound he).set home name _,
        .native ⟨s.functions, home⟩ name routine, rfl, ?_, ?_⟩
      · intro part hpart
        cases hpart
      · intro e he
        rcases @eq_or_bound_of_set s.addFunction _ _ _ _ he with rfl | he
        · exact .inr ⟨rfl, Nat.lt_succ_self _⟩
        · have he : s.Bound e := he
          exact .inl he.made
  | discard => exact evolves_of_made (Nat.le_succ _) (fun _ he => he) fun _ he => Bound.made he
  | enter => exact evolves_of_made (Nat.le_refl _) (fun _ he => he) fun _ he => Bound.made he
  | leave => exact evolves_of_made (Nat.le_refl _) (fun _ he => he) fun _ he => Bound.made he

theorem Evolves.has (h : s.Evolves t) (hf : s.Has f) : t.Has f :=
  hf.mono fun _ => h.bound

theorem Leads.has (h : s.Leads t) (hf : s.Has f) : t.Has f := by
  induction h with
  | refl => exact hf
  | tail _ hchange ih => exact hchange.evolves.has ih

/-!
# Coherence

In a coherent store each number is that of one function.  A function that is
there after a change was there before, or is the new one.
-/

/-- Numbers are below the next one, and each is the number of one function. -/
structure Coherent (s : Store) : Prop where
  number_lt {f : Expr} {n : Nat} : s.Has f → f.number? = some n → n < s.functions
  eq_of_number? {f g : Expr} : s.Has f → s.Has g → f.number? = g.number? → f = g

theorem Evolves.has_cases (h : s.Evolves t) :
    ∃ new : Expr, new.number? = some s.functions ∧
      ∀ f, t.Has f → s.Has f ∨ f = new ∧ s.functions < t.functions := by
  rcases h.made with ⟨new, hnumber, hparts, hmade⟩
  refine ⟨new, hnumber, ?_⟩
  rintro f ⟨hf, e, hbound, hoccurs⟩
  rcases hmade e hbound with he | ⟨rfl, hless⟩
  · exact .inl (he f hoccurs hf)
  · cases hoccurs with
    | refl => exact .inr ⟨rfl, hless⟩
    | tail hinside hpart => exact .inl (hparts _ hpart f hinside hf)

theorem Coherent.evolves (hs : s.Coherent) (h : s.Evolves t) : t.Coherent := by
  rcases h.has_cases with ⟨new, hnew, hcases⟩
  have hold {f : Expr} {n : Nat} (hf : s.Has f) (hn : f.number? = some n) : n < s.functions :=
    hs.number_lt hf hn
  constructor
  · intro f n hf hn
    rcases hcases f hf with hf | ⟨rfl, hless⟩
    · exact Nat.lt_of_lt_of_le (hold hf hn) h.functions_le
    · rw [hnew] at hn
      cases hn
      exact hless
  · intro f g hf hg hsame
    rcases hcases f hf with hf | ⟨rfl, _⟩
    · rcases hcases g hg with hg | ⟨rfl, _⟩
      · exact hs.eq_of_number? hf hg hsame
      · rw [hnew] at hsame
        exact absurd (hold hf hsame) (Nat.lt_irrefl _)
    · rcases hcases g hg with hg | ⟨rfl, _⟩
      · rw [hnew] at hsame
        exact absurd (hold hg hsame.symm) (Nat.lt_irrefl _)
      · rfl

theorem Coherent.leads (hs : s.Coherent) (h : s.Leads t) : t.Coherent := by
  induction h with
  | refl => exact hs
  | tail _ hchange ih => exact ih.evolves hchange.evolves

theorem coherent_empty : empty.Coherent := by
  have hnone {f : Expr} : ¬ empty.Has f := by
    rintro ⟨_, e, ⟨id, scope, name, hscope, _⟩, _⟩
    simp [empty, Forest.empty, Forest.get?] at hscope
  exact ⟨fun hf => absurd hf hnone, fun hf => absurd hf hnone⟩

/-!
# Equality of functions

In a coherent store equality is an equivalence on functions.  A function with
the next number is unequal to all that are there.
-/

theorem Coherent.equal_iff (hs : s.Coherent) (hf : s.Has f) (hg : s.Has g) :
    f.equal g = true ↔ f = g := by
  rcases hf.1 with ⟨n, hn⟩
  constructor
  · intro hequal
    apply hs.eq_of_number? hf hg
    rw [hn, Expr.number?_of_equal hn hequal]
  · rintro rfl
    exact Expr.equal_self_of_number? hn

def tracking : Tracking where
  World := Store
  Later := Leads
  value := Made
  opened _ _ := True
  store s t := t = s
  later_refl _ := .refl
  later_trans := .trans
  value_later h he := he.mono fun _ => h.has
  opened_later _ h := h

theorem outcome_ok {α : Type} {r : Store → α → Prop} {a : α} (h : s.Leads t) (hresult : r t a) :
    tracking.Outcome s r (.ok a t) :=
  @Tracking.Outcome.ok _ tracking s r t a t h hresult rfl

theorem outcome_unchanged {α : Type} {r : Store → α → Prop} (e : EvalError) :
    tracking.Outcome s r (.error e s) :=
  @Tracking.Outcome.error _ tracking s r s e s .refl rfl

theorem has_of_defines {scope : ScopeId} {args : List Expr} (h : Defines scope args s t f) :
    t.Has f := by
  rcases h with ⟨⟨params, body, _, rfl⟩, _, name, hforest⟩
  have hfresh : s.forest.fresh.index < (s.addChild scope).forest.size := by
    show s.forest.size < (s.forest.addChild scope).size
    rw [Forest.size_addChild]
    exact Nat.lt_succ_self _
  refine ⟨⟨s.functions, rfl⟩, _, ?_, .refl⟩
  rcases bound_set_self hfresh name (.lambda ⟨s.functions, scope⟩ params body) with
    ⟨id, found, key, hfound, hmem⟩
  exact ⟨id, found, key, by rw [hforest]; exact hfound, hmem⟩

theorem tracking_defineForm (eval : Evaluator) (scope : ScopeId) {args : List Expr}
    (hargs : ∀ e ∈ args, s.Made e) :
    tracking.Acts s tracking.evaluated (defineForm eval scope args) := by
  rintro s rfl
  rcases defineForm_outcome eval scope args s with ⟨e, herror⟩ | ⟨result, t, hok, hdefines⟩
  · rw [herror]
    exact outcome_unchanged e
  · rw [hok]
    have hmade : t.Made result.value := by
      rcases (has_of_defines hdefines).2 with ⟨e, hbound, hoccurs⟩
      intro f hf hnumber
      exact ⟨hnumber, e, hbound, hf.trans hoccurs⟩
    exact outcome_ok (.single (.define hargs eval scope hok)) hmade

theorem tracking_lawful : tracking.Lawful where
  plain h := made_of_isPlain h
  quoted h := Expr.Everywhere.component h (.quoted _)
  item h hmem := Expr.Everywhere.component h (.item hmem)
  body h := Expr.Everywhere.component h (.body _ _ _)
  lookup {s t scope name mode e} hs h := by
    cases hs
    exact (s.binds_bound.lookup h).made
  openScope s parent := by
    rintro s rfl
    exact outcome_ok (.single (.addChild s parent)) trivial
  bindName {s id e} name _ he := by
    rintro s rfl
    unfold EvalM.bindName
    split
    · exact outcome_unchanged _
    · exact outcome_ok (.single (.bind he id name)) trivial
  define eval _ _ _ _ scope hargs := tracking_defineForm eval scope hargs
  enter {s t} h := by
    cases h
    exact ⟨s.enter, .single (.enter s), rfl⟩
  leave {s t} h := by
    cases h
    exact ⟨s.leave, .single (.leave s), rfl⟩

end Store

namespace Store

theorem leads_addLibrary (s : Store) : s.Leads s.addLibrary := by
  apply addLibrary_induction (p := s.Leads)
  case root => exact .single (.addRoot s)
  case constant =>
    intro t constant hmem ht
    have hmade : t.Made constant.2 := made_of_isPlain (isPlain_of_mem_libraryConstants hmem)
    exact ht.tail (.bind hmade _ constant.1)
  case builtin =>
    intro t operation ht
    exact ht.tail (.register t _ operation.name (.builtin operation))

theorem coherent_library : library.Coherent :=
  coherent_empty.leads (leads_addLibrary empty)

end Store

namespace Operation

def Made (s : Store) : Operation → Prop
  | .bind _ _ value => s.Made value
  | .execute _ _ e _ => s.Made e
  | _ => True

variable {i : Interpreter}

end Operation

/-!
# Host routines

None of the host routines makes a function.
-/

namespace Operation

end Operation
end ScopeLisp
