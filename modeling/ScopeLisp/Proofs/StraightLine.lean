import ScopeLisp.Proofs.Contract
import ScopeLisp.Proofs.Isolation
import ScopeLisp.Proofs.Normalization
import ScopeLisp.Proofs.Termination
import ScopeLisp.Proofs.WrittenCode
import ScopeLisp.Session

/-!
# Straight-line programs

## Nesting and depth

A program that defines no functions calls nothing but builtins, and one that
quotes no lists runs no code but what stands in it.  What is evaluated inside an
evaluation is then a part of its expression.  So no more evaluations are in
flight than the expression has levels, and one for what stands at the bottom.

## The reader and the limit

The reader bounds how deep programs are nested.  A limit above its bound is
never reached by the programs that it accepts.
-/

namespace ScopeLisp
namespace Expr

/-!
# Straight expressions and tame values

A straight expression gives a tame value, which is straight again and no list.
-/

mutual

/--
Whether an expression neither defines functions nor quotes a list.  No atom in it
is `defn`, no quote in it stands before a list, and it carries no function but the
natives that define none.
-/
def isStraight : Expr → Bool
  | .atom name => name != "defn"
  | .quoted inner => !inner.isList && isStraight inner
  | .list items => isStraightAll items
  | .native _ _ (.builtin .define) | .lambda .. => false
  | _ => true

def isStraightAll : List Expr → Bool
  | [] => true
  | e :: rest => isStraight e && isStraightAll rest

end

theorem isStraightAll_iff {items : List Expr} :
    isStraightAll items = true ↔ ∀ e ∈ items, e.isStraight = true := by
  induction items with
  | nil =>
      simp [isStraightAll]
  | cons e rest ih =>
      simp [isStraightAll, ih]

theorem item_of_isStraight {items : List Expr} {bound : Nat}
    (h : (Expr.list items).isStraight = true) (hnesting : (Expr.list items).nesting ≤ bound + 1)
    {e : Expr} (he : e ∈ items) : e.isStraight = true ∧ e.nesting ≤ bound := by
  constructor
  · exact isStraightAll_iff.mp h e he
  · exact nestingAll_le_iff.mp (Nat.le_of_succ_le_succ hnesting) e he

/-- What a straight expression gives: it is straight again, and no list. -/
structure IsTame (e : Expr) : Prop where
  isStraight_eq : e.isStraight = true
  isList_eq : e.isList = false

theorem IsPlain.isTame {e : Expr} (h : e.IsPlain) : e.IsTame := by
  cases h <;> exact ⟨rfl, rfl⟩

theorem isTame_of_quoted {inner : Expr} (h : (Expr.quoted inner).isStraight = true) :
    inner.IsTame := by
  rw [isStraight, Bool.and_eq_true, Bool.not_eq_true'] at h
  exact ⟨h.2, h.1⟩

theorem name_ne_of_isStraight {name : String} (h : (Expr.atom name).isStraight = true) :
    name ≠ "defn" := by
  simpa [isStraight] using h

end Expr

/-!
# Stores

Evaluation of straight expressions binds only tame values, so every name but `defn`
goes on to stand for such a value.
-/

structure Store.Straight (depth bound : Nat) (s : Store) : Prop where
  holds : s.Holds fun binding => binding.1 ≠ "defn" → binding.2.IsTame
  inFlight_eq : s.inFlight = depth
  peak_le : s.peak ≤ bound

namespace Store.Straight

variable {depth bound : Nat} {s : Store}

theorem lookup (hs : s.Straight depth bound) {scope : ScopeId} {name : String}
    (hname : (Expr.atom name).isStraight = true) {mode : LookupMode} {value : Expr}
    (h : s.lookup scope name mode = some value) : value.IsTame :=
  hs.holds.lookup h (Expr.name_ne_of_isStraight hname)

theorem enter (hs : s.Straight depth bound) (hbound : depth < bound) :
    s.enter.Straight (depth + 1) bound where
  holds := hs.holds
  inFlight_eq := congrArg (· + 1) hs.inFlight_eq
  peak_le := by
    apply Nat.max_le.mpr
    rw [hs.inFlight_eq]
    exact ⟨hs.peak_le, hbound⟩

theorem leave (hs : s.Straight (depth + 1) bound) : s.leave.Straight depth bound where
  holds := hs.holds
  inFlight_eq := congrArg (· - 1) hs.inFlight_eq
  peak_le := hs.peak_le

end Store.Straight

theorem Store.library_straight (bound : Nat) : Store.library.Straight 0 bound where
  holds := by
    apply Store.Holds.library
    · intro name e he _
      exact he.isTame
    · intro identity operation hname
      cases operation with
      | define => exact (hname rfl).elim
      | _ => exact ⟨rfl, rfl⟩
  inFlight_eq := rfl
  peak_le := Nat.zero_le _

/-!
# Evaluation

Expressions of bounded nesting are evaluated with a fixed number of evaluations
in flight.  What keeps the contract one level further in keeps it when it is
counted.
-/

/--
The contract of straight-line evaluation: expressions of bounded nesting are
evaluated with a fixed number of evaluations in flight, to tame values.
-/
def Contract.straight (nesting depth bound : Nat) (fails : EvalError → Prop)
    (hfails : ∀ e : EvalError, e.IsOrdinary → fails e) : Contract where
  World := Unit
  Later _ _ := True
  code _ e := e.isStraight = true ∧ e.nesting ≤ nesting
  value _ e := e.IsTame
  opened _ _ := True
  store _ s := s.Straight depth bound
  fails := fails
  later_refl _ := trivial
  later_trans _ _ := trivial
  code_later _ h := h
  opened_later _ h := h
  fails_of_ordinary h := hfails _ h

namespace Contract

variable {nesting depth bound : Nat} {fails : EvalError → Prop}
  {hfails : ∀ e : EvalError, e.IsOrdinary → fails e}

theorem straight_ok {α : Type} {r : Unit → α → Prop} {a : α} {s : Store} (hresult : r () a)
    (hstore : s.Straight depth bound) :
    (straight nesting depth bound fails hfails).Outcome () r (.ok a s) :=
  @Outcome.ok _ (straight nesting depth bound fails hfails) () r () a s trivial hresult hstore

theorem straight_error {α : Type} {r : Unit → α → Prop} {e : EvalError} {s : Store} (he : fails e)
    (hstore : s.Straight depth bound) :
    (straight nesting depth bound fails hfails).Outcome () r (.error e s) :=
  @Outcome.error _ (straight nesting depth bound fails hfails) () r () e s trivial he hstore

theorem straight_lawful : (straight nesting depth bound fails hfails).Lawful where
  plain h := h.isTame
  item h he := Expr.item_of_isStraight h.1 (Nat.le_succ_of_le h.2) he
  body h := by
    cases h.isStraight_eq
  lookup hname hs h := hs.lookup hname.1 h
  openScope w parent := by
    intro s hs
    exact straight_ok trivial ⟨hs.holds.addChild parent, hs.inFlight_eq, hs.peak_le⟩
  bindName {w id e} name _ he := by
    intro s hs
    unfold EvalM.bindName
    split
    · exact straight_error (hfails _ (by simp [EvalError.IsOrdinary])) hs
    · exact straight_ok trivial ⟨hs.holds.set id fun _ => he, hs.inFlight_eq, hs.peak_le⟩
  define _ _ hnative _ := by
    cases hnative.isStraight_eq

theorem Outcome.ended {inside : Nat} {x : EStateM.Result EvalError Store Evaluated} {w : Unit}
    (h : (straight inside (depth + 1) bound fails hfails).Outcome w
      (straight inside (depth + 1) bound fails hfails).evaluated x) :
    (straight nesting depth bound fails hfails).Outcome w
      (straight nesting depth bound fails hfails).evaluated (EvalM.ended x) := by
  cases h with
  | ok _ hresult hstore =>
      exact straight_ok hresult hstore.leave
  | error _ herror hstore =>
      exact straight_error herror hstore.leave

theorem Outcome.storeAfter_straight {α : Type} {r : Unit → α → Prop} {w : Unit}
    {x : EStateM.Result EvalError Store α}
    (h : (straight nesting depth bound fails hfails).Outcome w r x) :
    (EvalM.storeAfter x).Straight depth bound := by
  cases h with
  | ok _ _ hstore => exact hstore
  | error _ _ hstore => exact hstore

end Contract

namespace Interpreter

open Contract

variable {limit nesting depth bound : Nat} {fails : EvalError → Prop}
  {hfails : ∀ e : EvalError, e.IsOrdinary → fails e}

/-!
# Levels and nesting

An expression that is no list has its value without further evaluations.  The
items of a list are nested less than the list, and they are evaluated one level
deeper.
-/

theorem evalWith_of_isStraight (i : Interpreter) (eval : Evaluator) (scope : ScopeId) {e : Expr}
    (he : e.isStraight = true) (hlist : e.isList = false) (mode : LookupMode) {s : Store}
    (hs : s.Straight depth bound) :
    ∃ value : Expr, value.IsTame ∧ i.evalWith eval scope e mode s = .ok ⟨value, scope⟩ s := by
  cases e with
  | list items =>
      cases hlist
  | quoted inner =>
      exact ⟨inner, Expr.isTame_of_quoted he, rfl⟩
  | atom name =>
      have htame : ((s.lookup scope name mode).getD .null).IsTame := by
        cases hfound : s.lookup scope name mode with
        | none => exact Expr.IsPlain.null.isTame
        | some value => exact hs.lookup he hfound
      refine ⟨_, htame, ?_⟩
      show i.settle eval _ ⟨(s.lookup scope name mode).getD .null, scope⟩ s = _
      rw [settle_of_isList_eq_false i eval _ htame.isList_eq]
      rfl
  | _ =>
      refine ⟨_, ⟨he, hlist⟩, ?_⟩
      rw [evalWith_of_isConstant i eval scope rfl]
      rfl

theorem limited_calls_straight (key : String) :
    (straight nesting depth bound fails hfails).Calls ((limited limit).host key) := by
  intro eval _ w args scope _
  have hnull : (straight nesting depth bound fails hfails).evaluated w ⟨.null, scope⟩ :=
    Expr.IsPlain.null.isTame
  exact Acts.pure hnull

theorem evalAt_list_straight {levels : Nat} {items : List Expr} {s : Store} {w : Unit}
    (heval : (straight nesting (depth + 1) bound fails hfails).Evaluates
      ((limited limit).evalAt levels))
    (hstraight : (Expr.list items).isStraight = true)
    (hnesting : (Expr.list items).nesting ≤ nesting + 1)
    (hinside : s.enter.Straight (depth + 1) bound) (scope : ScopeId) (mode : LookupMode) :
    (straight (nesting + 1) depth bound fails hfails).Outcome w
      (straight (nesting + 1) depth bound fails hfails).evaluated
      ((limited limit).evalAt (levels + 1) scope (.list items) mode s) := by
  let C := straight nesting (depth + 1) bound fails hfails
  have hinvoke : C.Outcome w C.evaluated
      ((limited limit).invoke ((limited limit).evalAt levels) scope items s.enter) :=
    straight_lawful.invoke heval limited_calls_straight scope
      (fun e he => Expr.item_of_isStraight hstraight hnesting he) s.enter hinside
  have hsettled (result : Evaluated) (t : Store)
      (hrun : (limited limit).invoke ((limited limit).evalAt levels) scope items s.enter =
        .ok result t) : result.value.isList = false := by
    rw [hrun] at hinvoke
    cases hinvoke with
    | ok _ hresult _ => exact hresult.isList_eq
  rw [evalAt_invoke (limited_ample limit) hsettled, EvalM.counted_eq_ended]
  exact hinvoke.ended

/--
A straight expression needs one level more than it is nested.  With fewer levels
it may fail for want of them, but has no more evaluations in flight either.
-/
theorem evalAt_straight {levels : Nat}
    (hlevels : nesting < levels ∨ fails (.stackExhausted limit))
    (hbound : depth + nesting < bound) :
    (straight nesting depth bound fails hfails).Evaluates ((limited limit).evalAt levels) := by
  -- Levels and nesting go down together, and the evaluations in flight go up.
  induction levels generalizing nesting depth with
  | zero =>
      intro w e scope mode _ s hs
      have hexhausted := hlevels.resolve_left (Nat.not_lt_zero _)
      exact straight_error hexhausted hs
  | succ levels ih =>
      rintro w e scope mode ⟨hstraight, hnesting⟩ s hs
      have hinside := hs.enter (Nat.lt_of_le_of_lt (Nat.le_add_right ..) hbound)
      cases hlist : e.isList with
      | false =>
          rcases (limited limit).evalWith_of_isStraight ((limited limit).evalAt levels) scope
            hstraight hlist mode hinside with ⟨value, hvalue, hrun⟩
          rw [evalAt_succ, EvalM.counted_eq_ended, hrun]
          exact straight_ok hvalue hinside.leave
      | true =>
          cases e <;> cases hlist
          cases nesting with
          | zero =>
              cases hnesting
          | succ nesting =>
              have hdeeper : depth + 1 + nesting < bound := by
                rw [Nat.add_right_comm]
                exact hbound
              have heval := ih (hlevels.imp_left Nat.lt_of_succ_lt_succ) hdeeper
              exact evalAt_list_straight heval hstraight hnesting hinside scope mode

theorem eval_straight (hfails : ∀ e : EvalError, e.IsOrdinary → fails e) {s : Store} {e : Expr}
    (hs : s.Straight 0 bound) (he : e.isStraight = true) (hbound : e.nesting < bound)
    (hlimit : e.nesting < limit ∨ fails (.stackExhausted limit)) (scope : ScopeId)
    (mode : LookupMode) :
    (straight e.nesting 0 bound fails hfails).Outcome () (fun _ x => x.value.IsTame)
      ((limited limit).eval scope e mode s) := by
  have hdepth : 0 + e.nesting < bound := by
    rw [Nat.zero_add]
    exact hbound
  exact evalAt_straight hlimit hdepth scope mode ⟨he, Nat.le_refl _⟩ s hs

theorem isOrdinary_of_eval_straight {s t : Store} {e : Expr} {error : EvalError}
    (hs : s.Straight 0 bound) (he : e.isStraight = true) (hbound : e.nesting < bound)
    (hlimit : e.nesting < limit) {scope : ScopeId} {mode : LookupMode}
    (h : (limited limit).eval scope e mode s = .error error t) : error.IsOrdinary := by
  have hrun := eval_straight (fun _ h => h) hs he hbound (.inl hlimit) scope mode
  rw [h] at hrun
  cases hrun with
  | error _ herror _ => exact herror

theorem eval_storeAfter_straight {s : Store} {e : Expr} (hs : s.Straight 0 bound)
    (he : e.isStraight = true) (hbound : e.nesting < bound) (scope : ScopeId)
    (mode : LookupMode) :
    (EvalM.storeAfter ((limited limit).eval scope e mode s)).Straight 0 bound :=
  (eval_straight (fun _ _ => trivial) hs he hbound (.inr trivial) scope mode).storeAfter_straight

end Interpreter

/-!
# Sessions

A source of a straight-line program is refused, or it is read as straight
expressions.
-/

def Source.IsStraight (source : List Char) : Prop :=
  ∀ es, Source.parseProgram source = .ok es → ∀ e ∈ es, e.isStraight = true

namespace Session

def answers (s : Session) : List (List Char) → List (Except Failure Expr)
  | [] => []
  | source :: rest => (s.evalSource source).1 :: (s.evalSource source).2.answers rest

/-- The states of a session before and after each expression of such programs. -/
inductive Visits : Session → List (List Char) → Session → Prop where
  | here (s : Session) (sources : List (List Char)) : Visits s sources s
  | within {source : List Char} {before after : List Expr}
      (h : Source.parseProgram source = .ok (before ++ after)) (s : Session)
      (rest : List (List Char)) : Visits s (source :: rest) (s.evalAll .null before).2
  | next {s t : Session} {source : List Char} {rest : List (List Char)}
      (h : Visits (s.evalSource source).2 rest t) : Visits s (source :: rest) t

/-!
# States of a session

The reader accepts nothing that is nested too deep, so every expression of a
program has levels enough.
-/

structure Straight (limit : Nat) (s : Session) : Prop where
  interpreter_eq : s.interpreter = .limited limit
  store_straight : s.store.Straight 0 (maxNesting + 1)

theorem start_straight (limit : Nat) : (start (.limited limit)).Straight limit :=
  ⟨rfl, Store.library_straight _⟩

namespace Straight

variable {limit : Nat} {s : Session} (hlimit : maxNesting < limit)
include hlimit

theorem eval (hs : s.Straight limit) {e : Expr} (he : e.isStraight = true)
    (hnesting : e.nesting ≤ maxNesting) :
    (s.eval e).2.Straight limit ∧ ∀ m, (s.eval e).1 ≠ .error (.stackExhausted m) := by
  have hbound : e.nesting < maxNesting + 1 := Nat.lt_succ_of_le hnesting
  have hstore : (EvalM.storeAfter ((Interpreter.limited limit).eval s.scope e .nearest
      s.store)).Straight 0 (maxNesting + 1) :=
    Interpreter.eval_storeAfter_straight hs.store_straight he hbound s.scope .nearest
  unfold Session.eval
  rw [hs.interpreter_eq]
  cases hrun : (Interpreter.limited limit).eval s.scope e .nearest s.store with
  | ok result t =>
      rw [hrun] at hstore
      refine ⟨⟨rfl, hstore⟩, ?_⟩
      rintro m ⟨⟩
  | error error t =>
      rw [hrun] at hstore
      have hordinary := Interpreter.isOrdinary_of_eval_straight hs.store_straight he hbound
        (Nat.lt_of_le_of_lt hnesting hlimit) hrun
      refine ⟨⟨rfl, hstore⟩, ?_⟩
      rintro m ⟨⟩
      exact hordinary.2 m rfl

theorem evalAll (hs : s.Straight limit) (last : Expr) {es : List Expr}
    (hes : ∀ e ∈ es, e.isStraight = true ∧ e.nesting ≤ maxNesting) :
    (s.evalAll last es).2.Straight limit ∧
      ∀ m, (s.evalAll last es).1 ≠ .error (.stackExhausted m) := by
  induction es generalizing s last with
  | nil =>
      refine ⟨hs, ?_⟩
      rintro m ⟨⟩
  | cons e rest ih =>
      rcases List.forall_mem_cons.mp hes with ⟨⟨he, hnesting⟩, hrest⟩
      rcases hs.eval hlimit he hnesting with ⟨hnext, hanswer⟩
      rw [Session.evalAll]
      split
      · rename_i value next heval
        rw [heval] at hnext
        exact ih hnext value hrest
      · rename_i error next heval
        rw [heval] at hnext hanswer
        refine ⟨hnext, ?_⟩
        rintro m ⟨⟩
        exact hanswer m rfl

theorem evalSource (hs : s.Straight limit) {source : List Char}
    (hsource : Source.IsStraight source) :
    (s.evalSource source).2.Straight limit ∧
      ∀ m, (s.evalSource source).1 ≠ .error (.evaluation (.stackExhausted m)) := by
  unfold Session.evalSource
  split
  · refine ⟨hs, ?_⟩
    rintro m ⟨⟩
  · rename_i es hparse
    have hes : ∀ e ∈ es, e.isStraight = true ∧ e.nesting ≤ maxNesting := fun e he =>
      ⟨hsource es hparse e he, (Source.isReadable_of_parseProgram hparse e he).2⟩
    rcases hs.evalAll hlimit .null hes with ⟨hlast, hanswer⟩
    split
    · rename_i value last hall
      rw [hall] at hlast
      refine ⟨hlast, ?_⟩
      rintro m ⟨⟩
    · rename_i error last hall
      rw [hall] at hlast hanswer
      refine ⟨hlast, ?_⟩
      rintro m ⟨⟩
      exact hanswer m rfl

theorem answers (hs : s.Straight limit) {sources : List (List Char)}
    (hsources : ∀ source ∈ sources, Source.IsStraight source) :
    ∀ answer ∈ s.answers sources, ∀ m, answer ≠ .error (.evaluation (.stackExhausted m)) := by
  induction sources generalizing s with
  | nil =>
      intro answer hmem
      cases hmem
  | cons source rest ih =>
      rcases List.forall_mem_cons.mp hsources with ⟨hsource, hrest⟩
      rcases hs.evalSource hlimit hsource with ⟨hnext, hanswer⟩
      exact List.forall_mem_cons.mpr ⟨hanswer, ih hnext hrest⟩

theorem visits (hs : s.Straight limit) {sources : List (List Char)}
    (hsources : ∀ source ∈ sources, Source.IsStraight source) {t : Session}
    (h : s.Visits sources t) : t.Straight limit := by
  induction h with
  | here s sources =>
      exact hs
  | @within source before after hparse s rest =>
      have hbefore : ∀ e ∈ before, e.isStraight = true ∧ e.nesting ≤ maxNesting := by
        intro e he
        have hmem : e ∈ before ++ after := List.mem_append_left _ he
        exact ⟨hsources source (List.mem_cons_self ..) _ hparse e hmem,
          (Source.isReadable_of_parseProgram hparse e hmem).2⟩
      exact (hs.evalAll hlimit .null hbefore).1
  | next _ ih =>
      rcases List.forall_mem_cons.mp hsources with ⟨hsource, hrest⟩
      exact ih (hs.evalSource hlimit hsource).1 hrest

end Straight

/--
Straight-line programs never reach the limit.  Let sources without definitions
and without quoted lists be evaluated in a fresh session, whose limit is above
the nesting that the reader accepts.  No answer is that the limit was exceeded.
In each state that the session goes through, an expression of this kind has at
most one evaluation more in flight than it is nested, under any limit and in any
scope, and a limit above its nesting is enough for it.
-/
theorem straight_programs_stay_within_nesting {limit : Nat} (hlimit : maxNesting + 1 ≤ limit)
    {sources : List (List Char)} (hsources : ∀ source ∈ sources, Source.IsStraight source) :
    (∀ answer ∈ (start (.limited limit)).answers sources,
      ∀ m, answer ≠ .error (.evaluation (.stackExhausted m))) ∧
    ∀ t, (start (.limited limit)).Visits sources t →
      ∀ (e : Expr) (scope : ScopeId) (mode : LookupMode) (n : Nat), e.isStraight = true →
        let outcome := (Interpreter.limited n).eval scope e mode { t.store with peak := 0 }
        (EvalM.storeAfter outcome).peak ≤ e.nesting + 1 ∧
          (e.nesting + 1 ≤ n → ∀ m u, outcome ≠ .error (.stackExhausted m) u) := by
  have hstart := start_straight limit
  constructor
  · exact hstart.answers hlimit hsources
  · intro t hvisits e scope mode n he outcome
    have ht := (hstart.visits hlimit hsources hvisits).store_straight
    have hfresh : Store.Straight 0 (e.nesting + 1) { t.store with peak := 0 } :=
      ⟨ht.holds, ht.inFlight_eq, Nat.zero_le _⟩
    have hbound := Nat.lt_succ_self e.nesting
    constructor
    · exact (Interpreter.eval_storeAfter_straight hfresh he hbound scope mode).peak_le
    · intro hroom m u hrun
      exact (Interpreter.isOrdinary_of_eval_straight hfresh he hbound hroom hrun).2 m rfl

/-- A builtin under another name, and its own name for something else. -/
def aliasing : List Char := "(let ((f +) (+ 'f)))".toList

theorem straight_programs_stay_within_nesting_aliasing :
    let e : Expr := .list [.atom "f", .num .one, .list [.atom "f", .num .one, .atom "T"]]
    let t := ((start (.limited 1001)).evalSource aliasing).2
    maxNesting + 1 ≤ 1001 ∧ (∀ source ∈ [aliasing], Source.IsStraight source) ∧
    (start (.limited 1001)).answers [aliasing] = [.ok .null] ∧
    (start (.limited 1001)).Visits [aliasing] t ∧ e.isStraight = true ∧ e.nesting = 2 ∧
    (EvalM.storeAfter ((Interpreter.limited 2).eval t.scope e .nearest
      { t.store with peak := 0 })).peak ≤ 3 ∧
    ∀ m u, (Interpreter.limited 3).eval t.scope e .nearest { t.store with peak := 0 } ≠
      .error (.stackExhausted m) u := by
  intro e t
  have hparse : Source.parseProgram aliasing = .ok [.list [.atom "let", .list
      [.list [.atom "f", .atom "+"], .list [.atom "+", .quoted (.atom "f")]]]] := rfl
  have hsources : ∀ source ∈ [aliasing], Source.IsStraight source := by
    intro source hmem es hes e he
    cases List.mem_singleton.mp hmem
    rw [hparse] at hes
    cases hes
    cases List.mem_singleton.mp he
    decide
  have hanswers : (start (.limited 1001)).answers [aliasing] = [.ok .null] := by
    rw [answers, Session.evalSource, hparse]
    rfl
  have hvisits : (start (.limited 1001)).Visits [aliasing] t := .next (.here _ _)
  have hbound := straight_programs_stay_within_nesting (Nat.le_refl 1001) hsources
  refine ⟨Nat.le_refl _, hsources, hanswers, hvisits, rfl, rfl, ?_, ?_⟩
  · exact (hbound.2 t hvisits e t.scope .nearest 2 rfl).1
  · exact (hbound.2 t hvisits e t.scope .nearest 3 rfl).2 (Nat.le_refl 3)

end Session
end ScopeLisp
