import Mathlib.Order.Nat
import ScopeLisp.Proofs.Growth

/-!
# The limit of nested evaluations

## Levels and evaluations in flight

Evaluation is defined by recursion on the levels that are left.  These are the
limit less the evaluations in flight, so the limit is reached when as many
evaluations are in flight as it allows.

## One threshold

A limit is either too small for an expression, or it makes no difference: there
is one least limit from which on the outcome is always the same.
-/

namespace ScopeLisp
namespace Interpreter

def limited (limit : Nat) : Interpreter :=
  { limit := limit }

theorem limited_ample (limit : Nat) : (limited limit).Ample :=
  fun _ => Nat.le_refl _

/-- Evaluates an expression with the levels that the evaluations in flight leave. -/
def execute (i : Interpreter) : Evaluator := fun scope e mode s =>
  i.evalAt (i.limit - s.inFlight) scope e mode s

theorem eval_eq_execute (i : Interpreter) {s : Store} (hs : s.inFlight = 0) (scope : ScopeId)
    (e : Expr) (mode : LookupMode) : i.eval scope e mode s = i.execute scope e mode s := by
  rw [execute, hs]
  rfl

theorem execute_onlyQuotes (i : Interpreter) : Evaluator.OnlyQuotes i.execute := by
  intro scope e mode s t result items h hvalue
  exact i.evalAt_onlyQuotes _ h hvalue

variable {i : Interpreter} {s : Store} {scope : ScopeId} {e : Expr}

/-!
# Levels that are left

A fixed number of levels is right as long as the evaluations in flight leave
that many.  So execution satisfies one equation in which no levels occur.
-/

theorem steady_execute {base : Forest} {depth bound : Nat} (hi : i.Ample)
    (hbound : i.limit ≤ bound) (hdepth : depth ≤ i.limit) :
    (Agreement.strict base depth bound i.limit).Evaluators (i.evalAt (i.limit - depth))
      i.execute := by
  intro w a b e e' mode hscope he s s' hs
  have hgenuine : EvalError.Genuine i.limit (.stackExhausted i.limit) := by
    simp [EvalError.Genuine]
  have hlevels : i.limit - s'.inFlight = i.limit - depth := by
    rw [hs.1, hs.2.2.inFlight_eq]
  rw [execute, hlevels]
  exact Agreement.steady_evalAt hi hi (Nat.le_refl _) (by omega)
    (.inr ⟨hgenuine, rfl, rfl⟩) mode hscope he s s' hs

theorem steady_execute_self {base : Forest} {depth bound : Nat} (hi : i.Ample)
    (hbound : i.limit ≤ bound) (hdepth : depth ≤ i.limit) :
    (Agreement.strict base depth bound i.limit).Evaluators i.execute i.execute := by
  intro w a b e e' mode hscope he s s' hs
  have hlevels : i.execute a e mode s = i.evalAt (i.limit - depth) a e mode s := by
    rw [execute, hs.2.2.inFlight_eq]
  rw [hlevels]
  exact steady_execute hi hbound hdepth mode hscope he s s' hs

/--
Execution in one equation: an evaluation fails if as many are in flight as the
limit allows, and is counted otherwise, with execution for all evaluations
inside it.
-/
theorem execute_eq (hi : i.Ample) (hs : s.Closed) (hscope : scope.Within s.extent)
    (he : e.Within s.extent) (mode : LookupMode) :
    i.execute scope e mode s =
      if i.limit ≤ s.inFlight then .error (.stackExhausted i.limit) s
      else EvalM.counted (i.evalWith i.execute scope e mode) s := by
  split
  · rename_i hfull
    rw [execute, Nat.sub_eq_zero_of_le hfull]
    rfl
  · rename_i hroom
    let A := Agreement.strict s.forest (s.inFlight + 1) (max s.enter.peak i.limit) i.limit
    have hsteady : s.enter.Steady s.forest (s.inFlight + 1) (max s.enter.peak i.limit) :=
      ⟨hs, s.forest.extends_refl, rfl, Nat.le_max_left ..⟩
    have hinside : A.Evaluators (i.evalAt (i.limit - (s.inFlight + 1))) i.execute :=
      steady_execute hi (Nat.le_max_right ..) (by omega)
    have hsame : A.Outcome s.extent A.evaluated
        (i.evalWith (i.evalAt (i.limit - (s.inFlight + 1))) scope e mode s.enter)
        (i.evalWith i.execute scope e mode s.enter) :=
      Agreement.evalWith hinside (i.evalAt_onlyQuotes _) i.execute_onlyQuotes hi hi mode
        ⟨rfl, hscope⟩ ⟨rfl, he⟩ s.enter s.enter ⟨rfl, rfl, hsteady⟩
    have hlevels : i.limit - s.inFlight = i.limit - (s.inFlight + 1) + 1 := by
      omega
    obtain heq | ⟨_, _, _, hfalse⟩ := Agreement.steady_eq_or_excused hsame
    · rw [execute, hlevels, evalAt_succ, EvalM.counted, EvalM.counted, heq]
    · exact hfalse.elim

theorem execute_growsTo (hi : i.Ample) (hs : s.Closed) (hscope : scope.Within s.extent)
    (he : e.Within s.extent) (mode : LookupMode) :
    s.GrowsTo (EvalM.storeAfter (i.execute scope e mode s)) :=
  (evalAt_growsTo hi hs hscope he _ mode).1

theorem execute_peak_le (hi : i.Ample) (hs : s.Closed) (hscope : scope.Within s.extent)
    (he : e.Within s.extent) (mode : LookupMode) :
    (EvalM.storeAfter (i.execute scope e mode s)).peak ≤ max s.peak i.limit := by
  by_cases hfull : i.limit ≤ s.inFlight
  · rw [execute_eq hi hs hscope he, if_pos hfull]
    exact Nat.le_max_left ..
  · have hpeak := (evalAt_growsTo hi hs hscope he (i.limit - s.inFlight) mode).2
    rw [Nat.add_sub_cancel' (Nat.le_of_not_le hfull)] at hpeak
    exact hpeak

/-!
# Limits that make no difference

A larger limit makes no difference to an evaluation that does not run into a
smaller one.
-/

/-- An evaluation that runs into its limit. -/
def Exhausts (limit : Nat) (scope : ScopeId) (e : Expr) (mode : LookupMode) (s : Store) : Prop :=
  ∃ t, (limited limit).execute scope e mode s = .error (.stackExhausted limit) t

theorem exhausts_or_execute_eq (hs : s.Closed) (hscope : scope.Within s.extent)
    (he : e.Within s.extent) (mode : LookupMode) {m n : Nat} (hmn : m ≤ n) :
    Exhausts m scope e mode s ∨
      (limited n).execute scope e mode s = (limited m).execute scope e mode s := by
  let A := Agreement.lenient s.forest s.inFlight (max s.peak (s.inFlight + m)) m
  have hsteady : s.Steady s.forest s.inFlight (max s.peak (s.inFlight + m)) :=
    ⟨hs, s.forest.extends_refl, rfl, Nat.le_max_left ..⟩
  have hlevels : m - s.inFlight ≤ n - s.inFlight := by
    omega
  have hroom : s.inFlight + (m - s.inFlight) ≤ max s.peak (s.inFlight + m) := by
    omega
  have hevaluators : A.Evaluators ((limited m).evalAt (m - s.inFlight))
      ((limited n).evalAt (n - s.inFlight)) :=
    Agreement.steady_evalAt (limited_ample m) (limited_ample n) hlevels hroom (.inl rfl)
  have houtcome := hevaluators mode ⟨rfl, hscope⟩ ⟨rfl, he⟩ s s ⟨rfl, rfl, hsteady⟩
  obtain heq | ⟨_, t, herror, rfl⟩ := Agreement.steady_eq_or_excused houtcome
  · exact .inr heq
  · exact .inl ⟨t, herror⟩

/-!
# Lists that are calls

A list whose invocation gives no list has nothing left to settle.  A list that
calls a function of the program is therefore that call, counted.
-/

theorem evalAt_invoke (hi : i.Ample) {items : List Expr} {levels : Nat}
    (hresult : ∀ result t, i.invoke (i.evalAt levels) scope items s.enter = .ok result t →
      result.value.isList = false) (mode : LookupMode) :
    i.evalAt (levels + 1) scope (.list items) mode s =
      EvalM.counted (i.invoke (i.evalAt levels) scope items) s := by
  have hrounds := hi (.list items)
  have hpos := Expr.size_pos (.list items)
  rcases Nat.exists_eq_add_of_le' (Nat.le_trans hpos hrounds) with ⟨rounds, hsucc⟩
  have hsettle : i.evalWith (i.evalAt levels) scope (.list items) mode s.enter =
      i.invoke (i.evalAt levels) scope items s.enter := by
    show i.settle (i.evalAt levels) (i.rounds _) ⟨.list items, scope⟩ s.enter = _
    rw [hsucc, settle_succ_list]
    cases hinvoke : i.invoke (i.evalAt levels) scope items s.enter with
    | error e t =>
        rw [EvalM.bind_of_eq_error hinvoke]
    | ok result t =>
        rw [EvalM.bind_of_eq_ok hinvoke, settle_of_isList_eq_false i _ _ (hresult result t hinvoke)]
        rfl
  rw [evalAt_succ, EvalM.counted, EvalM.counted, hsettle]

theorem evalAt_call (hi : i.Ample) {name : String} {identity : Identity} {params : List String}
    {body : List Expr}
    (hname : s.lookup scope name .nearest = some (.lambda identity params body))
    (args : List Expr) (levels : Nat) (mode : LookupMode) :
    i.evalAt (levels + 1) scope (.list (.atom name :: args)) mode s =
      EvalM.counted (call (i.evalAt levels) scope name identity.home params body args) s := by
  have hinvoke : i.invoke (i.evalAt levels) scope (.atom name :: args) s.enter =
      call (i.evalAt levels) scope name identity.home params body args s.enter := by
    have hfound : EvalM.lookup scope name .nearest s.enter =
        .ok (some (.lambda identity params body)) s.enter :=
      congrArg (EStateM.Result.ok · s.enter) hname
    exact EvalM.bind_of_eq_ok hfound _
  have hresult : ∀ result t, i.invoke (i.evalAt levels) scope (.atom name :: args) s.enter =
      .ok result t → result.value.isList = false := by
    intro result t hcall
    exact isList_of_call (i.evalAt_onlyQuotes levels) (hinvoke.symm.trans hcall)
  rw [evalAt_invoke hi hresult, EvalM.counted, EvalM.counted, hinvoke]

/-!
# A call without end

A function that calls what it is given with itself never comes to an end when it is
given itself.  Each call opens a scope that binds the function anew, and leaves one
level fewer.  A single call needs four levels.
-/

def selfCaller (identity : Identity) : Expr :=
  .lambda identity ["g"] [.atom "g", .atom "g"]

section SelfCall

variable {name : String} {identity : Identity}

theorem evalAt_succ_atom (i : Interpreter) (levels : Nat) {value : Expr}
    (hbound : s.forest.local? scope name = some value) (hvalue : value.isList = false) :
    i.evalAt (levels + 1) scope (.atom name) .nearest s = .ok ⟨value, scope⟩ s.enter.leave := by
  have hfound : EvalM.lookup scope name .nearest s.enter = .ok (some value) s.enter :=
    congrArg (fun found => EStateM.Result.ok found s.enter) (Forest.lookup_of_local? hbound)
  rw [evalAt_succ, EvalM.counted_eq_ok_iff]
  refine ⟨s.enter, ?_, rfl⟩
  refine (EvalM.bind_of_eq_ok hfound _).trans ?_
  rw [settle_of_isList_eq_false i _ _ hvalue]
  rfl

theorem bindEach_selfCaller (i : Interpreter) (levels : Nat)
    (hhome : identity.home.index < s.forest.size)
    (hbound : s.forest.local? scope name = some (selfCaller identity)) :
    ∃ t, bindEach (i.evalAt (levels + 1)) scope s.forest.fresh [.ok ("g", .atom name)]
        (s.addChild identity.home) = .ok () t ∧
      t.forest = (s.forest.addChild identity.home).set s.forest.fresh "g"
        (selfCaller identity) := by
  have hscope : (s.addChild identity.home).forest.local? scope name =
      some (selfCaller identity) :=
    (Forest.local?_addChild _ hhome scope name).trans hbound
  have harg := i.evalAt_succ_atom levels hscope rfl
  have hbind := EvalM.bindName_fresh s.enter.leave identity.home "g" (selfCaller identity)
  exact ⟨_, (EvalM.bind_of_eq_ok harg _).trans (EvalM.bind_of_eq_ok hbind _), rfl⟩

theorem call_selfCaller {levels limit : Nat} (hhome : identity.home.index < s.forest.size)
    (hbound : s.forest.local? scope name = some (selfCaller identity))
    (hnext : ∀ {t : Store} {inner : ScopeId}, identity.home.index < t.forest.size →
      t.forest.local? inner "g" = some (selfCaller identity) →
        ∃ u, (limited limit).evalAt levels inner (.list [.atom "g", .atom "g"]) .nearest t =
          .error (.stackExhausted limit) u) :
    ∃ u, call ((limited limit).evalAt levels) scope name identity.home ["g"]
      [.atom "g", .atom "g"] [.atom name] s = .error (.stackExhausted limit) u := by
  cases levels with
  | zero =>
      exact ⟨_, rfl⟩
  | succ levels =>
      rcases (limited limit).bindEach_selfCaller levels hhome hbound with ⟨t, hbind, hforest⟩
      have hsize : t.forest.size = s.forest.size + 1 := by
        rw [hforest, Forest.size_set, Forest.size_addChild]
      have hinner : t.forest.local? s.forest.fresh "g" = some (selfCaller identity) := by
        rw [hforest, Forest.local?_set, Forest.size_addChild]
        exact if_pos ⟨rfl, Nat.lt_succ_self _, rfl⟩
      rcases hnext (hsize ▸ Nat.lt_succ_of_lt hhome) hinner with ⟨u, hbody⟩
      exact ⟨u, (EvalM.bind_of_eq_ok hbind _).trans (EvalM.bind_of_eq_error hbody _)⟩

theorem evalAt_selfCall (limit levels : Nat) (hhome : identity.home.index < s.forest.size)
    (hbound : s.forest.local? scope name = some (selfCaller identity)) :
    ∃ u, (limited limit).evalAt levels scope (.list [.atom name, .atom name]) .nearest s =
      .error (.stackExhausted limit) u := by
  induction levels generalizing s scope name with
  | zero =>
      exact ⟨s, rfl⟩
  | succ levels ih =>
      have hname : s.lookup scope name .nearest =
          some (.lambda identity ["g"] [.atom "g", .atom "g"]) :=
        Forest.lookup_of_local? hbound
      rcases call_selfCaller (s := s.enter) hhome hbound ih with ⟨u, hcall⟩
      refine ⟨u.leave, ?_⟩
      rw [evalAt_call (limited_ample limit) hname, EvalM.counted, hcall]

end SelfCall

/-- A function called with itself: `(do (defn f (g) (g g)) (f f))`. -/
def selfApplication : Expr :=
  let definition : Expr :=
    .list [.atom "defn", .atom "f", .list [.atom "g"], .list [.atom "g", .atom "g"]]
  .list [.atom "do", definition, .list [.atom "f", .atom "f"]]

theorem exhausts_selfApplication (limit : Nat) :
    Exhausts limit Store.first selfApplication .nearest Store.library := by
  match limit with
  | 0 =>
      exact ⟨_, rfl⟩
  | 1 =>
      exact ⟨_, rfl⟩
  | levels + 2 =>
      let eval := (limited (levels + 2)).evalAt (levels + 1)
      have hdefinition : ∃ t, eval Store.first
          (.list [.atom "defn", .atom "f", .list [.atom "g"], .list [.atom "g", .atom "g"]])
          .nearest Store.library.enter = .ok ⟨selfCaller ⟨18, Store.first⟩, ⟨1⟩⟩ t ∧
          Store.first.index < t.forest.size ∧
          t.forest.local? ⟨1⟩ "f" = some (selfCaller ⟨18, Store.first⟩) :=
        ⟨_, rfl, by decide, rfl⟩
      rcases hdefinition with ⟨t, hdefinition, hhome, hbound⟩
      rcases evalAt_selfCall (levels + 2) (levels + 1) hhome hbound with ⟨u, hcall⟩
      have hsequence := (EvalM.bind_of_eq_ok hdefinition fun next =>
        evalSequence eval next [.list [.atom "f", .atom "f"]]).trans
          (EvalM.bind_of_eq_error hcall _)
      have hround : (limited (levels + 2)).evalWith eval Store.first selfApplication .nearest
          Store.library.enter = .error (.stackExhausted (levels + 2)) u :=
        EvalM.bind_of_eq_error hsequence _
      refine ⟨u.leave, ?_⟩
      change EvalM.counted _ Store.library = _
      rw [EvalM.counted, hround]

/-- A function that is called once: `(do (defn f (x) (1+ x)) (f 1))`. -/
def singleCall : Expr :=
  let definition : Expr :=
    .list [.atom "defn", .atom "f", .list [.atom "x"], .list [.atom "1+", .atom "x"]]
  .list [.atom "do", definition, .list [.atom "f", .num .one]]

theorem exhausts_singleCall {limit : Nat} (hlimit : limit < 4) :
    Exhausts limit Store.first singleCall .nearest Store.library := by
  have hcases : limit = 0 ∨ limit = 1 ∨ limit = 2 ∨ limit = 3 := by omega
  rcases hcases with rfl | rfl | rfl | rfl <;> exact ⟨_, rfl⟩

/-!
# One threshold

The least limit that is not exhausted is the threshold.
-/

/--
The limit is transparent.  Either every limit is too small, or there is a
threshold: smaller limits are exhausted, and from the threshold on the outcome
is one and the same, down to the store.  Whatever the outcome is, as many
evaluations are in flight afterwards as before, and never more than the limit.
-/
theorem execute_limit_threshold {s : Store} {scope : ScopeId} {e : Expr} (hs : s.Closed)
    (hscope : scope.Within s.extent) (he : e.Within s.extent) (mode : LookupMode) :
    ((∀ m, Exhausts m scope e mode s) ∨
      ∃ threshold outcome, (∀ m, m < threshold → Exhausts m scope e mode s) ∧
        (∀ m, threshold ≤ m → (limited m).execute scope e mode s = outcome) ∧
        ∀ m t, outcome ≠ .error (.stackExhausted m) t) ∧
    ∀ m, (EvalM.storeAfter ((limited m).execute scope e mode s)).inFlight = s.inFlight ∧
      (EvalM.storeAfter ((limited m).execute scope e mode s)).peak ≤ max s.peak m := by
  classical
  constructor
  · by_cases hall : ∀ m, Exhausts m scope e mode s
    · exact .inl hall
    · have hsome : ∃ m, ¬ Exhausts m scope e mode s := not_forall.mp hall
      right
      refine ⟨Nat.find hsome, (limited (Nat.find hsome)).execute scope e mode s, ?_, ?_, ?_⟩
      · intro m hm
        exact not_not.mp (Nat.find_min hsome hm)
      · intro m hm
        exact (exhausts_or_execute_eq hs hscope he mode hm).resolve_left (Nat.find_spec hsome)
      · intro m t herror
        have hgenuine := evalAt_error_genuine (limited_ample _) hs hscope he herror
        cases hgenuine.2 m rfl
        exact Nat.find_spec hsome ⟨t, herror⟩
  · intro m
    exact ⟨(execute_growsTo (limited_ample m) hs hscope he mode).inFlight_eq,
      execute_peak_le (limited_ample m) hs hscope he mode⟩

/-- No limit is enough for a function called with itself, and four is enough for one call. -/
theorem execute_limit_threshold_selfApplication :
    Store.library.Closed ∧ Store.first.Within Store.library.extent ∧
    selfApplication.Within Store.library.extent ∧ singleCall.Within Store.library.extent ∧
    (∀ m, Exhausts m Store.first selfApplication .nearest Store.library ∧
      (EvalM.storeAfter ((limited m).execute Store.first selfApplication .nearest
        Store.library)).inFlight = Store.library.inFlight ∧
      (EvalM.storeAfter ((limited m).execute Store.first selfApplication .nearest
        Store.library)).peak ≤ m) ∧
    (∀ m, m < 4 → Exhausts m Store.first singleCall .nearest Store.library) ∧
    ∃ t, ∀ m, 4 ≤ m → (limited m).execute Store.first singleCall .nearest Store.library =
      .ok ⟨.num (.ofNat 2), ⟨1⟩⟩ t := by
  have hself : selfApplication.Within Store.library.extent := by
    simp [selfApplication, Expr.Within, Expr.WithinAll]
  have hsingle : singleCall.Within Store.library.extent := by
    simp [singleCall, Expr.Within, Expr.WithinAll]
  have hlimit {e : Expr} (he : e.Within Store.library.extent) :=
    execute_limit_threshold Store.closed_library Store.first_within_library he .nearest
  have hfour : ∃ t, (limited 4).execute Store.first singleCall .nearest Store.library =
      .ok ⟨.num (.ofNat 2), ⟨1⟩⟩ t := ⟨_, by rfl⟩
  refine ⟨Store.closed_library, Store.first_within_library, hself, hsingle, ?_, ?_, ?_⟩
  · intro m
    rcases (hlimit hself).2 m with ⟨hflight, hpeak⟩
    refine ⟨exhausts_selfApplication m, hflight, ?_⟩
    exact Nat.le_trans hpeak (Nat.max_le.mpr ⟨Nat.zero_le m, Nat.le_refl m⟩)
  · intro m hm
    exact exhausts_singleCall hm
  · rcases hfour with ⟨t, hfour⟩
    have hnot : ¬ Exhausts 4 Store.first singleCall .nearest Store.library := by
      rintro ⟨t', herror⟩
      rw [hfour] at herror
      cases herror
    rcases (hlimit hsingle).1 with hall | ⟨threshold, outcome, hbelow, hfrom, _⟩
    · exact absurd (hall 4) hnot
    · have hthreshold : threshold ≤ 4 := Nat.le_of_not_lt fun hlt => hnot (hbelow 4 hlt)
      refine ⟨t, fun m hm => ?_⟩
      rw [hfrom m (Nat.le_trans hthreshold hm), ← hfrom 4 hthreshold, hfour]

end Interpreter
end ScopeLisp
