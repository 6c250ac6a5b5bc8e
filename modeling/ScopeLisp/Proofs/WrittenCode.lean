import ScopeLisp.Proofs.DepthLimit

/-!
# Code is written, never made

## Occurrence

Programs are data, and a function carries the code that it runs.  An expression
occurs in another one if it stands in it, also in the parameters or the body of
a function.

## Where code comes from

No builtin puts atoms, strings, quotes or lists together.  Apart from the atom
for truth, each of these that a run gives, binds or keeps in a function stands in
an expression that was evaluated.
-/

namespace ScopeLisp
namespace Expr

/-!
# Code and where it stands

An atom, a string, a quote or a list is code.  It may stand in the parameters
and in the body of a function as well.
-/

/-- What an expression shows directly.  A function shows its parameters and its body. -/
inductive Component : Expr → Expr → Prop where
  | quoted (e : Expr) : Component e (.quoted e)
  | item {e : Expr} {items : List Expr} (h : e ∈ items) : Component e (.list items)
  | param {name : String} {params : List String} (h : name ∈ params) (identity : Identity)
      (body : List Expr) : Component (.atom name) (.lambda identity params body)
  | body (identity : Identity) (params : List String) (body : List Expr) :
      Component (.list body) (.lambda identity params body)

def Occurs : Expr → Expr → Prop :=
  Relation.ReflTransGen Component

def isCode : Expr → Bool
  | .atom _ | .str _ | .quoted _ | .list _ => true
  | _ => false

mutual

def functionFree : Expr → Bool
  | .quoted inner => functionFree inner
  | .list items => functionFreeAll items
  | .native .. | .lambda .. => false
  | _ => true

def functionFreeAll : List Expr → Bool
  | [] => true
  | e :: rest => functionFree e && functionFreeAll rest

end

/-- Every atom, string, quote and list in an expression is `T` or occurs in one of the sources. -/
def CodeFrom (sources : List Expr) (e : Expr) : Prop :=
  ∀ node : Expr, node.Occurs e → node.isCode = true →
    node = .truth ∨ ∃ source ∈ sources, node.Occurs source

def OnlyBuiltins (e : Expr) : Prop :=
  ∀ identity name routine, Occurs (.native identity name routine) e → routine.IsBuiltin

/-!
# Expressions without functions

In an expression without functions, occurrences are sub-expressions.
-/

theorem functionFree_of_mem {e : Expr} {items : List Expr} (hmem : e ∈ items)
    (h : functionFreeAll items = true) : e.functionFree = true := by
  induction items with
  | nil =>
      cases hmem
  | cons first rest ih =>
      rw [functionFreeAll, Bool.and_eq_true] at h
      cases hmem with
      | head =>
          exact h.1
      | tail _ hmem =>
          exact ih hmem h.2

theorem Component.functionFree {part e : Expr} (hpart : Component part e)
    (h : e.functionFree = true) : part.functionFree = true := by
  cases hpart with
  | quoted =>
      exact h
  | item hmem =>
      exact functionFree_of_mem hmem h
  | param =>
      cases h
  | body =>
      cases h

theorem Occurs.functionFree {node e : Expr} (hnode : node.Occurs e) (h : e.functionFree = true) :
    node.functionFree = true := by
  induction hnode with
  | refl =>
      exact h
  | tail _ hstep ih =>
      exact ih (hstep.functionFree h)

theorem Occurs.subexpression {node source : Expr} (h : node.Occurs source)
    (hfree : source.functionFree = true) : Relation.ReflTransGen Child node source := by
  induction h with
  | refl =>
      exact .refl
  | tail _ hstep ih =>
      have hinner := ih (hstep.functionFree hfree)
      cases hstep with
      | quoted =>
          exact .tail hinner (.quoted _)
      | item hmem =>
          exact .tail hinner (.item hmem)
      | param =>
          cases hfree
      | body =>
          cases hfree

theorem onlyBuiltins_of_functionFree {e : Expr} (h : e.functionFree = true) : e.OnlyBuiltins := by
  intro identity name routine hoccurs
  cases hoccurs.functionFree h

/-!
# Properties of all nodes

A property of all nodes of an expression holds of all nodes of its parts.
-/

def Everywhere (p : Expr → Prop) (e : Expr) : Prop :=
  ∀ node : Expr, node.Occurs e → p node

theorem Everywhere.component {p : Expr → Prop} {part e : Expr} (h : e.Everywhere p)
    (hpart : Component part e) : part.Everywhere p := by
  intro node hnode
  exact h node (.tail hnode hpart)

theorem everywhere_of_components {p : Expr → Prop} {e : Expr} (he : p e)
    (hparts : ∀ part, Component part e → part.Everywhere p) : e.Everywhere p := by
  intro node hnode
  cases hnode with
  | refl =>
      exact he
  | tail hnode hpart =>
      exact hparts _ hpart node hnode

/-!
# Known code

A function shows no more than the expressions that define it.
-/

/-- What may stand in a store, given the expressions that were evaluated. -/
def Known (sources : List Expr) : Expr → Prop
  | .native _ _ routine => routine.IsBuiltin
  | .num _ | .null | .lambda .. => True
  | node => node = .truth ∨ ∃ source ∈ sources, node.Occurs source

variable {sources : List Expr}

theorem known_of_occurs {node source : Expr} (hsource : source ∈ sources)
    (hbuiltins : source.OnlyBuiltins) (h : node.Occurs source) : node.Known sources := by
  cases node with
  | native identity name routine =>
      exact hbuiltins identity name routine h
  | num value =>
      trivial
  | null =>
      trivial
  | lambda identity params body =>
      trivial
  | _ =>
      exact .inr ⟨source, hsource, h⟩

theorem Known.mono {node : Expr} (source : Expr) (h : node.Known sources) :
    node.Known (source :: sources) := by
  have hwider : (node = .truth ∨ ∃ source ∈ sources, node.Occurs source) →
      node = .truth ∨ ∃ other ∈ source :: sources, node.Occurs other := by
    rintro (htruth | ⟨other, hmem, hoccurs⟩)
    · exact .inl htruth
    · exact .inr ⟨other, List.mem_cons_of_mem _ hmem, hoccurs⟩
  cases node with
  | native identity name routine =>
      exact h
  | num value =>
      trivial
  | null =>
      trivial
  | lambda identity params body =>
      trivial
  | _ =>
      exact hwider h

theorem Everywhere.codeFrom {e : Expr} (h : e.Everywhere (Known sources)) : e.CodeFrom sources := by
  intro node hnode hcode
  have hknown := h node hnode
  cases node with
  | native identity name routine =>
      cases hcode
  | num value =>
      cases hcode
  | null =>
      cases hcode
  | lambda identity params body =>
      cases hcode
  | _ =>
      exact hknown

theorem IsPlain.everywhere {e : Expr} (h : e.IsPlain) : e.Everywhere (Known sources) := by
  cases h with
  | num value =>
      refine everywhere_of_components trivial ?_
      intro part hpart
      cases hpart
  | truth =>
      refine everywhere_of_components (.inl rfl) ?_
      intro part hpart
      cases hpart
  | null =>
      refine everywhere_of_components trivial ?_
      intro part hpart
      cases hpart

theorem everywhere_native (identity : Identity) (name : String) (operation : Builtin) :
    (Expr.native identity name (.builtin operation)).Everywhere (Known sources) := by
  refine everywhere_of_components trivial ?_
  intro part hpart
  cases hpart

end Expr

theorem atom_mem_of_parameterNames {params : List Expr} {names : List String}
    (h : parameterNames params = .ok names) {name : String} (hname : name ∈ names) :
    .atom name ∈ params := by
  induction params generalizing names with
  | nil =>
      cases h
      cases hname
  | cons param rest ih =>
      cases param with
      | atom first =>
          rw [parameterNames] at h
          cases hrest : parameterNames rest with
          | error error =>
              rw [hrest] at h
              cases h
          | ok others =>
              rw [hrest] at h
              cases h
              cases hname with
              | head =>
                  exact List.mem_cons_self ..
              | tail _ hname =>
                  exact List.mem_cons_of_mem _ (ih hrest hname)
      | _ =>
          cases h

theorem Expr.everywhere_lambda {sources params body : List Expr} {names : List String}
    (hparams : (Expr.list params).Everywhere (Known sources))
    (hnames : parameterNames params = .ok names)
    (hbody : (Expr.list body).Everywhere (Known sources)) (identity : Identity) :
    (Expr.lambda identity names body).Everywhere (Known sources) := by
  refine everywhere_of_components trivial ?_
  intro part hpart
  cases hpart with
  | param hname =>
      exact hparams.component (.item (atom_mem_of_parameterNames hnames hname))
  | body =>
      exact hbody

/-!
# Stores

A property of bindings survives every step that binds values with this
property.  The library binds builtins, `T` and null.
-/

def Store.Holds (p : String × Expr → Prop) (s : Store) : Prop :=
  ∀ id scope, s.forest.get? id = some scope → ∀ binding ∈ scope.bindings, p binding

def Store.Binds (p : Expr → Prop) (s : Store) : Prop :=
  ∀ id scope, s.forest.get? id = some scope → ∀ binding ∈ scope.bindings, p binding.2

theorem isPlain_of_mem_libraryConstants {constant : String × Expr}
    (hmem : constant ∈ libraryConstants) : constant.2.IsPlain := by
  simp only [libraryConstants, List.mem_cons, List.not_mem_nil, or_false] at hmem
  rcases hmem with rfl | rfl
  · exact .truth
  · exact .null

namespace Store.Holds

variable {p : String × Expr → Prop} {s : Store}

theorem empty : Store.empty.Holds p := by
  intro id scope hscope
  simp [Store.empty, Forest.empty, Forest.get?] at hscope

theorem lookup (hs : s.Holds p) {id : ScopeId} {name : String} {mode : LookupMode} {value : Expr}
    (h : s.lookup id name mode = some value) : p (name, value) := by
  rw [Store.lookup, Forest.lookup_eq_findSome?] at h
  rcases List.exists_of_findSome?_eq_some h with ⟨found, _, hfound⟩
  rcases Option.bind_eq_some_iff.mp hfound with ⟨scope, hscope, hvisible⟩
  rw [Scope.visible?, Option.filter_eq_some_iff] at hvisible
  rcases List.lookup_eq_some_iff.mp hvisible.1 with ⟨before, after, hbindings, _⟩
  apply hs found scope hscope (name, value)
  simp [hbindings]

theorem push (hs : s.Holds p) (parent : Option ScopeId)
    (h : ∀ id, parent = some id → id.index < s.forest.size) :
    Store.Holds p { s with forest := s.forest.push parent h } := by
  intro id scope hscope binding hmem
  rw [Forest.get?_push] at hscope
  split at hscope
  · cases hscope
    cases hmem
  · exact hs id scope hscope binding hmem

theorem addRoot (hs : s.Holds p) : s.addRoot.Holds p :=
  hs.push none _

theorem addChild (hs : s.Holds p) (parent : ScopeId) : (s.addChild parent).Holds p := by
  unfold Store.addChild Forest.addChild
  split
  · exact hs.push (some parent) _
  · exact hs.addRoot

theorem set (hs : s.Holds p) (id : ScopeId) {name : String} {value : Expr}
    (hbinding : p (name, value)) :
    Store.Holds p { s with forest := s.forest.set id name value } := by
  intro other scope hscope binding hmem
  simp only [Forest.get?_set] at hscope
  split at hscope
  · rcases Option.map_eq_some_iff.mp hscope with ⟨old, hold, rfl⟩
    cases hmem with
    | head =>
        exact hbinding
    | tail _ hmem =>
        exact hs other old hold binding hmem
  · exact hs other scope hscope binding hmem

theorem addLibrary (hs : s.Holds p) (hconstants : ∀ constant ∈ libraryConstants, p constant)
    (hnatives : ∀ identity operation,
      p (operation.name, .native identity operation.name (.builtin operation))) :
    s.addLibrary.Holds p := by
  apply Store.addLibrary_induction (p := Store.Holds p)
  case root => exact hs.addRoot
  case constant =>
    intro t constant hmem ht
    exact ht.set _ (hconstants constant hmem)
  case builtin =>
    intro t operation ht
    exact Holds.set (s := t.addFunction) ht _ (hnatives ..)

theorem library (hplain : ∀ name e, Expr.IsPlain e → p (name, e))
    (hnatives : ∀ identity operation,
      p (operation.name, .native identity operation.name (.builtin operation))) :
    Store.library.Holds p := by
  refine empty.addLibrary ?_ hnatives
  intro constant hmem
  exact hplain _ _ (isPlain_of_mem_libraryConstants hmem)

end Store.Holds

namespace Store.Binds

variable {p : Expr → Prop} {s : Store}

/-!
# Stores that bind known code

What is known from some expressions is known from more of them.
-/

theorem holds (hs : s.Binds p) : s.Holds fun binding => p binding.2 :=
  hs

theorem known_cons {sources : List Expr} (hs : s.Binds (Expr.Everywhere (Expr.Known sources)))
    (source : Expr) : s.Binds (Expr.Everywhere (Expr.Known (source :: sources))) := by
  intro id scope hscope binding hmem node hnode
  exact (hs id scope hscope binding hmem node hnode).mono source

theorem lookup (hs : s.Binds p) {id : ScopeId} {name : String} {mode : LookupMode} {value : Expr}
    (h : s.lookup id name mode = some value) : p value :=
  hs.holds.lookup h

theorem addRoot (hs : s.Binds p) : s.addRoot.Binds p :=
  hs.holds.addRoot

theorem addChild (hs : s.Binds p) (parent : ScopeId) : (s.addChild parent).Binds p :=
  hs.holds.addChild parent

theorem set (hs : s.Binds p) (id : ScopeId) (name : String) {value : Expr} (hvalue : p value) :
    Store.Binds p { s with forest := s.forest.set id name value } :=
  hs.holds.set id hvalue

end Store.Binds

theorem Store.library_binds_known (sources : List Expr) :
    Store.library.Binds (Expr.Everywhere (Expr.Known sources)) := by
  have hholds : Store.library.Holds fun binding => binding.2.Everywhere (Expr.Known sources) :=
    .library (fun _ _ h => h.everywhere) fun identity operation =>
      Expr.everywhere_native identity _ operation
  exact hholds

/-!
# Evaluation

A run is compared with itself, and nothing but known code occurs in it.
-/

namespace Agreement

def written (sources : List Expr) : Agreement where
  World := Unit
  Later _ _ := True
  scope _ a b := b = a
  opened _ a b := b = a
  expr _ e e' := e' = e ∧ e.Everywhere (Expr.Known sources)
  store _ s s' := s' = s ∧ s.Binds (Expr.Everywhere (Expr.Known sources))
  excused _ := False
  shared _ := True
  later_refl _ := trivial
  later_trans _ _ := trivial
  scope_later _ h := h
  opened_later _ h := h
  expr_later _ h := h
  scope_of_opened h := h
  shared_of_ordinary _ := trivial
  layer {w e e'} h := by
    rcases h with ⟨rfl, he⟩
    cases e' with
    | atom name =>
        exact .atom name
    | str text =>
        exact .str text
    | num value =>
        exact .num value
    | quoted inner =>
        exact .quoted ⟨rfl, he.component (.quoted inner)⟩
    | list items =>
        exact .list (List.forall₂_same.mpr fun e hmem => ⟨rfl, he.component (.item hmem)⟩)
    | native identity name routine =>
        cases routine with
        | builtin operation =>
            exact .native identity identity name operation
        | host key =>
            exact (he _ .refl).elim
    | lambda identity params body =>
        exact .lambda params rfl ⟨rfl, he.component (.body identity params body)⟩
    | null =>
        exact .null
  plain h := ⟨rfl, h.everywhere⟩
  lookup {w s s' a b} name mode hs hab := by
    rcases hs with ⟨rfl, hs⟩
    cases hab
    cases hfound : s'.lookup a name mode with
    | none =>
        exact .none
    | some value =>
        exact .some ⟨rfl, hs.lookup hfound⟩
  addChild {w s s' a b} hs hab := by
    rcases hs with ⟨rfl, hs⟩
    cases hab
    exact ⟨w, trivial, ⟨rfl, hs.addChild a⟩, rfl⟩
  binds_eq {w s s' a b} name hs hab := by
    rw [hs.1, hab]
  set {w s s' a b v v'} name hs hab hv := by
    rcases hs with ⟨rfl, hs⟩
    rcases hv with ⟨rfl, hv⟩
    cases hab
    exact ⟨w, trivial, rfl, hs.set a name hv⟩
  addFunction {w s s' a b params params' names body body'} hs hab hparams hnames hbody := by
    rcases hs with ⟨rfl, hs⟩
    rcases hbody with ⟨hbody, hknown⟩
    cases hab
    cases hbody
    exact ⟨w, trivial, ⟨rfl, hs⟩, rfl, Expr.everywhere_lambda hparams.2 hnames hknown _⟩

theorem written_uncounted (sources : List Expr) : (written sources).Uncounted where
  enter := by
    rintro w s s' ⟨rfl, hs⟩
    exact ⟨rfl, hs⟩
  leave := by
    rintro w s s' ⟨rfl, hs⟩
    exact ⟨rfl, hs⟩
  exhausted _ := trivial

end Agreement

namespace Interpreter

theorem eval_known {i : Interpreter} (hi : i.Ample) {sources : List Expr} {e : Expr} {s : Store}
    (he : e.Everywhere (Expr.Known sources)) (hs : s.Binds (Expr.Everywhere (Expr.Known sources)))
    (scope : ScopeId) (mode : LookupMode) :
    (EvalM.storeAfter (i.eval scope e mode s)).Binds (Expr.Everywhere (Expr.Known sources)) ∧
      ∀ result t, i.eval scope e mode s = .ok result t →
        result.value.Everywhere (Expr.Known sources) := by
  have heval := (Agreement.written_uncounted sources).evalAt hi i.limit
  have houtcome : (Agreement.written sources).Outcome () _ (i.eval scope e mode s)
      (i.eval scope e mode s) := heval mode rfl ⟨rfl, he⟩ s s ⟨rfl, hs⟩
  generalize i.eval scope e mode s = outcome at houtcome
  cases houtcome with
  | ok _ hresult hstore =>
      constructor
      · exact hstore.2
      · intro result t h
        cases h
        exact hresult.1.2
  | error _ _ hstore =>
      constructor
      · exact hstore.2
      · intro result t h
        cases h
  | excused h =>
      exact h.elim

end Interpreter

/-!
# Runs

A store that evaluations make of the library binds nothing but what is known
from the expressions that were evaluated.
-/

/-- The stores that evaluations make of the library, with what was evaluated, latest first. -/
inductive Ran : List Expr → Store → Prop where
  | start : Ran [] Store.library
  | eval {sources : List Expr} {s : Store} (h : Ran sources s) (limit : Nat) (scope : ScopeId)
      {e : Expr} (he : e.OnlyBuiltins) (mode : LookupMode) :
      Ran (e :: sources) (EvalM.storeAfter ((Interpreter.limited limit).eval scope e mode s))

namespace Ran

theorem everywhere_known {sources : List Expr} {e : Expr} (he : e.OnlyBuiltins) :
    e.Everywhere (Expr.Known (e :: sources)) := by
  intro node hnode
  exact Expr.known_of_occurs (List.mem_cons_self ..) he hnode

theorem binds_known {sources : List Expr} {s : Store} (h : Ran sources s) :
    s.Binds (Expr.Everywhere (Expr.Known sources)) := by
  induction h with
  | start =>
      exact Store.library_binds_known []
  | @eval sources s _ limit scope e he mode ih =>
      exact (Interpreter.eval_known (Interpreter.limited_ample limit) (everywhere_known he)
        (ih.known_cons e) scope mode).1

/--
A program can only run and give code that is written in it.  However expressions
are evaluated one after the other from a fresh library, each atom, string, quote
and list in a value that is bound or given, also in the parameters and the body
of a function, is the atom `T` or occurs in one of the expressions.  In an
expression without functions to occur is to be a sub-expression.
-/
theorem code_from_sources {sources : List Expr} {s : Store} (h : Ran sources s) :
    (∀ id scope name value, s.forest.get? id = some scope → (name, value) ∈ scope.bindings →
      value.CodeFrom sources) ∧
    (∀ limit scope e mode result t, e.OnlyBuiltins →
      (Interpreter.limited limit).eval scope e mode s = .ok result t →
        result.value.CodeFrom (e :: sources)) ∧
    ∀ source node : Expr, source.functionFree = true → node.Occurs source →
      Relation.ReflTransGen Expr.Child node source := by
  have hs := h.binds_known
  refine ⟨?_, ?_, ?_⟩
  · intro id scope name value hscope hmem
    exact (hs id scope hscope (name, value) hmem).codeFrom
  · intro limit scope e mode result t he heval
    have hresult := (Interpreter.eval_known (Interpreter.limited_ample limit)
      (everywhere_known he) (hs.known_cons e) scope mode).2 result t heval
    exact hresult.codeFrom
  · intro source node hfree hnode
    exact hnode.subexpression hfree

/-- A function with data in its body: `(defn f (x) (do '(x "s")))`. -/
def quotation : Expr :=
  .list [.atom "defn", .atom "f", .list [.atom "x"],
    .list [.atom "do", .quoted (.list [.atom "x", .str "s"])]]

def quoting : Store :=
  EvalM.storeAfter ((Interpreter.limited 10).eval Store.first quotation .nearest Store.library)

theorem code_from_sources_quotation :
    let value : Expr :=
      .lambda ⟨18, Store.first⟩ ["x"] [.atom "do", .quoted (.list [.atom "x", .str "s"])]
    Ran [quotation] quoting ∧ (Expr.atom "f").OnlyBuiltins ∧
    (∃ t, (Interpreter.limited 10).eval ⟨1⟩ (.atom "f") .nearest quoting = .ok ⟨value, ⟨1⟩⟩ t) ∧
    value.CodeFrom [.atom "f", quotation] := by
  intro value
  have hran : Ran [quotation] quoting :=
    .eval .start 10 Store.first (Expr.onlyBuiltins_of_functionFree rfl) .nearest
  have hname : (Expr.atom "f").OnlyBuiltins := Expr.onlyBuiltins_of_functionFree rfl
  have hlookup : quoting.enter.lookup ⟨1⟩ "f" .nearest = some value := rfl
  have hvalue : ∃ t, (Interpreter.limited 10).eval ⟨1⟩ (.atom "f") .nearest quoting =
      .ok ⟨value, ⟨1⟩⟩ t := by
    refine ⟨quoting.enter.leave, ?_⟩
    rw [Interpreter.eval, Interpreter.limited, Interpreter.evalAt_succ, EvalM.counted_eq_ok_iff]
    refine ⟨quoting.enter, EvalM.bind_eq_ok_iff.mpr ⟨some value, quoting.enter, ?_, rfl⟩, rfl⟩
    rw [EvalM.lookup, hlookup]
  rcases hvalue with ⟨t, hvalue⟩
  exact ⟨hran, hname, ⟨t, hvalue⟩,
    (code_from_sources hran).2.1 10 ⟨1⟩ (.atom "f") .nearest ⟨value, ⟨1⟩⟩ t hname hvalue⟩

end Ran
end ScopeLisp
