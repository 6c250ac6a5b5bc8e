import ScopeLisp.Proofs.AppendOnly
import ScopeLisp.Proofs.Isolation

/-!
# Where evaluation goes on

## Inwards

An evaluation gives a scope in which the next one takes place.  It is the scope
of the evaluation itself or lies somewhere under it, however many scopes were
opened elsewhere for the bodies of functions.

## Back

Only sequences, bindings and definitions lead to another scope.  After all other
builtins, and after a call of any function, evaluation goes on where it was.
-/

namespace ScopeLisp
namespace Forest

/-!
# Scopes that enclose others

A new scope lies under its parent, also when more has happened since.
-/

/-- A scope and one that is the same or lies under it. -/
def Encloses (f : Forest) : ScopeId → ScopeId → Prop :=
  Relation.ReflTransGen fun outer inner => f.parent? inner = some outer

variable {f g : Forest} {a b : ScopeId}

theorem KeepsParents.refl (f : Forest) : f.KeepsParents f :=
  ⟨Nat.le_refl _, fun _ => rfl⟩

theorem keepsParents_addChild (f : Forest) (parent : ScopeId) :
    f.KeepsParents (f.addChild parent) :=
  (f.extends_addChild parent).persists.toKeepsParents

theorem Encloses.mono (h : f.Encloses a b) (hkeeps : f.KeepsParents g) : g.Encloses a b := by
  induction h with
  | refl =>
      exact .refl
  | tail _ hparent ih =>
      exact .tail ih ((hkeeps.parent?_eq (index_lt_of_parent? hparent)).trans hparent)

theorem Encloses.index_lt (h : f.Encloses a b) (ha : a.index < f.size) : b.index < f.size := by
  cases h with
  | refl =>
      exact ha
  | tail _ hparent =>
      exact index_lt_of_parent? hparent

theorem parent?_addChild_fresh (ha : a.index < f.size) :
    (f.addChild a).parent? f.fresh = some a :=
  (f.parent?_addChild ha f.fresh).trans (if_pos rfl)

theorem encloses_fresh (ha : a.index < f.size) (hkeeps : (f.addChild a).KeepsParents g) :
    g.Encloses a f.fresh := by
  have hchild : (f.addChild a).Encloses a f.fresh := .single (parent?_addChild_fresh ha)
  exact hchild.mono hkeeps

end Forest

/-!
# Keeping the scopes in place

Evaluation never moves a scope, wherever it binds names.
-/

def Invariant.lineal (base : Forest) : Invariant where
  holds s := base.KeepsParents s.forest
  opened _ := True
  addChild {s} parent hs := ⟨hs.trans (s.forest.keepsParents_addChild parent), trivial⟩
  set {s id} name value hs _ := hs.trans (s.forest.keepsParents_set id name value)
  addFunction hs := hs
  enter hs := hs
  leave hs := hs

/-- An evaluator after which scopes lie where they did, and which never leads outwards. -/
structure Evaluator.Descends (eval : Evaluator) : Prop where
  lineal (base : Forest) : (Invariant.lineal base).Evaluates eval
  encloses {scope : ScopeId} {e : Expr} {mode : LookupMode} {s t : Store} {result : Evaluated} :
    scope.index < s.forest.size → eval scope e mode s = .ok result t →
      t.forest.Encloses scope result.scope

section Runs

variable {eval : Evaluator} {scope : ScopeId} {args : List Expr} {s t : Store} {result : Evaluated}

theorem Evaluator.Descends.keepsParents (heval : eval.Descends) {e : Expr} {mode : LookupMode}
    (h : eval scope e mode s = .ok result t) : s.forest.KeepsParents t.forest := by
  have hkeeps := (heval.lineal s.forest scope e mode s (.refl _)).storeAfter
  rw [h] at hkeeps
  exact hkeeps

theorem bindEach_keepsParents (heval : eval.Descends) {inner : ScopeId}
    {pairs : List (Except EvalError (String × Expr))}
    (h : bindEach eval scope inner pairs s = .ok () t) : s.forest.KeepsParents t.forest := by
  have hacts : (Invariant.lineal s.forest).Acts (fun _ => True)
      (bindEach eval scope inner pairs) :=
    Invariant.bindEach (heval.lineal s.forest) trivial scope pairs
  have hkeeps := (hacts s (.refl _)).storeAfter
  rw [h] at hkeeps
  exact hkeeps

/-!
# Forms that lead inwards

A sequence leads inwards if each of its expressions does.  A binding form and a
definition lead to the scope that they open.
-/

theorem evalSequence_descends (heval : eval.Descends) (last : Evaluated)
    (hlast : last.scope.index < s.forest.size) (h : evalSequence eval last args s = .ok result t) :
    s.forest.KeepsParents t.forest ∧ t.forest.Encloses last.scope result.scope := by
  induction args generalizing last s with
  | nil =>
      cases h
      exact ⟨.refl _, .refl⟩
  | cons arg rest ih =>
      rcases EvalM.bind_eq_ok_iff.mp h with ⟨next, s₁, hnext, hrest⟩
      have hkeeps := heval.keepsParents hnext
      have hencloses := heval.encloses hlast hnext
      have hinside := hencloses.index_lt (Nat.lt_of_lt_of_le hlast hkeeps.size_le)
      rcases ih next hinside hrest with ⟨hkeeps', hencloses'⟩
      exact ⟨hkeeps.trans hkeeps', (hencloses.mono hkeeps').trans hencloses'⟩

theorem bindingsForm_encloses (heval : eval.Descends) (hscope : scope.index < s.forest.size)
    (h : bindingsForm eval scope args s = .ok result t) : t.forest.Encloses scope result.scope := by
  unfold bindingsForm at h
  split at h
  · rcases EvalM.bind_eq_ok_iff.mp h with ⟨inner, s₁, hopen, hrest⟩
    cases hopen
    rcases EvalM.bind_eq_ok_iff.mp hrest with ⟨_, s₂, hloop, hresult⟩
    cases hresult
    exact Forest.encloses_fresh hscope (bindEach_keepsParents heval hloop)
  · cases h
  · cases h

theorem defineForm_encloses (eval : Evaluator) (hscope : scope.index < s.forest.size)
    (h : defineForm eval scope args s = .ok result t) : t.forest.Encloses scope result.scope := by
  rcases EvalM.bind_eq_ok_iff.mp h with ⟨⟨name, params, body⟩, s₁, hdefinition, hrest⟩
  have hsame : s₁ = s := by
    cases hparts : definition args <;> rw [hparts] at hdefinition <;> cases hdefinition
    rfl
  subst hsame
  rcases EvalM.bind_eq_ok_iff.mp hrest with ⟨identity, s₂, hidentity, hrest⟩
  cases hidentity
  rcases EvalM.bind_eq_ok_iff.mp hrest with ⟨inner, s₃, hopen, hrest⟩
  cases hopen
  rcases EvalM.bind_eq_ok_iff.mp hrest with ⟨_, s₄, hbind, hresult⟩
  cases hresult
  unfold EvalM.bindName at hbind
  split at hbind
  · cases hbind
  · cases hbind
    exact Forest.encloses_fresh hscope (Forest.keepsParents_set ..)

theorem Builtin.encloses_of_body (heval : eval.Descends) (hscope : scope.index < s.forest.size)
    {operation : Builtin} (h : operation.body eval scope args s = .ok result t) :
    t.forest.Encloses scope result.scope := by
  cases operation with
  | sequence =>
      exact (evalSequence_descends heval ⟨.null, scope⟩ hscope h).2
  | define =>
      exact defineForm_encloses eval hscope h
  | bindings =>
      exact bindingsForm_encloses heval hscope h
  | _ =>
      rw [(Builtin.plain_of_body rfl h).2]
      exact .refl

end Runs

namespace Interpreter

variable {limit : Nat} {eval : Evaluator} {scope : ScopeId} {s t : Store} {result : Evaluated}

/-!
# Evaluation

The natives of the library are its builtins, and a key without a routine gives
null where it is called.
-/

theorem limited_calls (I : Invariant) (limit : Nat) (key : String) :
    I.Calls ((limited limit).host key) := by
  intro eval _ scope args
  exact Invariant.Acts.pure trivial

theorem invoke_descends (heval : eval.Descends) {items : List Expr}
    (hscope : scope.index < s.forest.size)
    (h : (limited limit).invoke eval scope items s = .ok result t) :
    s.forest.KeepsParents t.forest ∧ t.forest.Encloses scope result.scope := by
  constructor
  · have hacts := Invariant.invoke (limited_calls _ limit) (heval.lineal s.forest) scope items
    have hkeeps := (hacts s (.refl _)).storeAfter
    rw [h] at hkeeps
    exact hkeeps
  · cases items with
    | nil =>
        cases h
    | cons head args =>
        cases head with
        | atom name =>
            rcases EvalM.bind_eq_ok_iff.mp h with ⟨found, s₁, hlookup, hbody⟩
            cases hlookup
            generalize s.lookup scope name .nearest = found at hbody
            cases found with
            | none =>
                cases hbody
            | some function =>
                cases function with
                | native identity label routine =>
                    cases routine with
                    | builtin operation =>
                        exact Builtin.encloses_of_body heval hscope hbody
                    | host key =>
                        cases hbody
                        exact .refl
                | lambda identity params body =>
                    rw [call_scope hbody]
                    exact .refl
                | _ =>
                    cases hbody
        | _ =>
            cases h

theorem settle_descends (heval : eval.Descends) {rounds : Nat} (start : Evaluated)
    (hstart : start.scope.index < s.forest.size)
    (h : (limited limit).settle eval rounds start s = .ok result t) :
    s.forest.KeepsParents t.forest ∧ t.forest.Encloses start.scope result.scope := by
  have hsettled {rounds : Nat} {start : Evaluated} {s : Store} (hlist : start.value.isList = false)
      (h : (limited limit).settle eval rounds start s = .ok result t) :
      s.forest.KeepsParents t.forest ∧ t.forest.Encloses start.scope result.scope := by
    rw [settle_of_isList_eq_false _ eval rounds hlist] at h
    cases h
    exact ⟨.refl _, .refl⟩
  induction rounds generalizing start s with
  | zero =>
      rcases start with ⟨value, scope⟩
      cases value with
      | list items =>
          cases h
      | _ =>
          exact hsettled rfl h
  | succ rounds ih =>
      rcases start with ⟨value, scope⟩
      cases value with
      | list items =>
          rcases EvalM.bind_eq_ok_iff.mp h with ⟨next, s₁, hnext, hrest⟩
          rcases invoke_descends heval hstart hnext with ⟨hkeeps, hencloses⟩
          have hinside := hencloses.index_lt (Nat.lt_of_lt_of_le hstart hkeeps.size_le)
          rcases ih next hinside hrest with ⟨hkeeps', hencloses'⟩
          exact ⟨hkeeps.trans hkeeps', (hencloses.mono hkeeps').trans hencloses'⟩
      | _ =>
          exact hsettled rfl h

theorem evalWith_encloses (heval : eval.Descends) {e : Expr} {mode : LookupMode}
    (hscope : scope.index < s.forest.size)
    (h : (limited limit).evalWith eval scope e mode s = .ok result t) :
    t.forest.Encloses scope result.scope := by
  cases e with
  | quoted inner =>
      cases h
      exact .refl
  | atom name =>
      rcases EvalM.bind_eq_ok_iff.mp h with ⟨found, s₁, hlookup, hrest⟩
      cases hlookup
      exact (settle_descends heval ⟨_, scope⟩ hscope hrest).2
  | _ =>
      exact (settle_descends heval ⟨_, scope⟩ hscope h).2

theorem evalAt_descends (limit levels : Nat) : ((limited limit).evalAt levels).Descends := by
  have hlineal (levels : Nat) (base : Forest) :
      (Invariant.lineal base).Evaluates ((limited limit).evalAt levels) :=
    Invariant.evalAt (limited_calls _ limit) levels
  induction levels with
  | zero =>
      refine ⟨hlineal 0, ?_⟩
      intro scope e mode s t result _ h
      cases h
  | succ levels ih =>
      refine ⟨hlineal (levels + 1), ?_⟩
      intro scope e mode s t result hscope h
      rcases EvalM.counted_eq_ok_iff.mp h with ⟨s₁, hrun, rfl⟩
      exact evalWith_encloses (s := s.enter) (t := s₁) ih hscope hrun

end Interpreter

/-!
# Calls

A function of the program, and every builtin that leads nowhere else, returns
to the scope of its call.
-/

/-- Functions after which evaluation goes on in the scope of the call. -/
def Expr.isReturning : Expr → Bool
  | .lambda .. => true
  | .native _ _ (.builtin operation) => !operation.isLeading
  | _ => false

namespace Interpreter

variable {limit : Nat} {scope : ScopeId} {s t : Store} {result : Evaluated}

theorem invoke_returns (i : Interpreter) {eval : Evaluator} (heval : eval.OnlyQuotes)
    {name : String} {args : List Expr} {function : Expr}
    (hname : s.lookup scope name .nearest = some function)
    (hreturning : function.isReturning = true)
    (h : i.invoke eval scope (.atom name :: args) s = .ok result t) :
    result.value.isList = false ∧ result.scope = scope := by
  rcases EvalM.bind_eq_ok_iff.mp h with ⟨found, s₁, hlookup, hbody⟩
  cases hlookup
  rw [hname] at hbody
  cases function with
  | native identity label routine =>
      cases routine with
      | builtin operation =>
          have hstays : operation.isLeading = false := by
            simpa [Expr.isReturning] using hreturning
          rcases Builtin.plain_of_body hstays hbody with ⟨hplain, hscope⟩
          exact ⟨hplain.isList_eq_false, hscope⟩
      | host key =>
          cases hreturning
  | lambda identity params body =>
      exact ⟨isList_of_call heval hbody, call_scope hbody⟩
  | _ =>
      cases hreturning

/--
Evaluation goes on further in, and calls leave no trace.  The scope in which an
evaluation goes on is its own scope or lies under it.  For a list whose head
stands for a function of the program, or for a builtin other than a sequence, a
binding form and a definition, it is its own scope, whatever the arguments and the
body bind.
-/
theorem evaluation_goes_inwards {limit : Nat} {s t : Store} {scope : ScopeId} {e : Expr}
    {mode : LookupMode} {result : Evaluated} (hscope : scope.Within s.extent)
    (h : (limited limit).execute scope e mode s = .ok result t) :
    t.forest.Encloses scope result.scope ∧
    ∀ name args function, e = .list (.atom name :: args) →
      s.lookup scope name .nearest = some function → function.isReturning = true →
        result.scope = scope := by
  constructor
  · exact (evalAt_descends limit _).encloses hscope h
  · rintro name args function rfl hname hreturning
    unfold execute at h
    cases hlevels : (limited limit).limit - s.inFlight with
    | zero =>
        rw [hlevels] at h
        cases h
    | succ levels =>
        have hquotes := (limited limit).evalAt_onlyQuotes levels
        have hreturns {result : Evaluated} {t : Store}
            (hrun : (limited limit).invoke ((limited limit).evalAt levels) scope
              (.atom name :: args) s.enter = .ok result t) :=
          invoke_returns (s := s.enter) _ hquotes hname hreturning hrun
        rw [hlevels, evalAt_invoke (limited_ample limit) fun _ _ hrun => (hreturns hrun).1] at h
        rcases EvalM.counted_eq_ok_iff.mp h with ⟨s₁, hrun, _⟩
        exact (hreturns hrun).2

/-- A scope with three builtins, and one in it with `(defn f (y) (do (let ((z y)))))`. -/
def nested : Store :=
  Operation.run (limited 10) Store.empty
    [.addRoot, .register Store.first "do" (.builtin .sequence),
    .register Store.first "let" (.builtin .bindings),
    .register Store.first "defn" (.builtin .define),
    .execute 10 Store.first (.list [.atom "defn", .atom "f", .list [.atom "y"],
      .list [.atom "do", .list [.atom "let", .list [.list [.atom "z", .atom "y"]]]]]) .nearest]

/--
The sequence `(do (let ((x "a"))) (let ((y x))))` leads two scopes inwards, and the
call `(f "a")`, which opens as many, leads nowhere.
-/
theorem evaluation_goes_inwards_nested :
    let code : Expr := .list [.atom "do", .list [.atom "let", .list [.list [.atom "x", .str "a"]]],
      .list [.atom "let", .list [.list [.atom "y", .atom "x"]]]]
    let called : Expr := .list [.atom "f", .str "a"]
    ScopeId.Within nested.extent ⟨1⟩ ∧
    (∃ result t, (limited 10).execute ⟨1⟩ code .nearest nested = .ok result t ∧
      result.scope = ⟨3⟩ ∧ t.forest.Encloses ⟨1⟩ ⟨3⟩) ∧
    ∃ result t, (limited 10).execute ⟨1⟩ called .nearest nested = .ok result t ∧
      t.forest.size = nested.forest.size + 2 ∧ result.scope = ⟨1⟩ := by
  intro code called
  have hscope : ScopeId.Within nested.extent ⟨1⟩ := Nat.lt_succ_self 1
  have hcode : ∃ result t, (limited 10).execute ⟨1⟩ code .nearest nested = .ok result t ∧
      result.scope = ⟨3⟩ := ⟨_, _, rfl, rfl⟩
  have hcalled : ∃ result t, (limited 10).execute ⟨1⟩ called .nearest nested = .ok result t ∧
      t.forest.size = nested.forest.size + 2 := ⟨_, _, rfl, rfl⟩
  refine ⟨hscope, ?_, ?_⟩
  · rcases hcode with ⟨result, t, hrun, hresult⟩
    have hinwards := (evaluation_goes_inwards hscope hrun).1
    rw [hresult] at hinwards
    exact ⟨result, t, hrun, hresult, hinwards⟩
  · rcases hcalled with ⟨result, t, hrun, hsize⟩
    have hback := (evaluation_goes_inwards hscope hrun).2 "f" [.str "a"] _ rfl rfl rfl
    exact ⟨result, t, hrun, hsize, hback⟩

end Interpreter
end ScopeLisp
