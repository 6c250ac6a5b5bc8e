import Mathlib.Data.List.Chain
import ScopeLisp.Proofs.Independence

/-!
# Numeric operators

## Arithmetic

An arithmetic operator wants numbers and passes over null values.  The first
argument that gives anything else decides its failure.  Otherwise it folds the
numbers from the left.

## Comparison

A comparison wants numbers only, and each one in relation to the one before it.  It
ends at the first argument where this fails, and what stands behind makes no
difference.
-/

namespace ScopeLisp

/-!
# What arithmetic makes of an answer

An answer is a number, is passed over, or is refused: it is an error, or a
value that is neither a number nor null.
-/

def answeredNumber? : Except EvalError Expr → Option Binary32
  | .ok (.num x) => some x
  | _ => none

def isPassedOver : Except EvalError Expr → Bool
  | .ok .null => true
  | _ => false

def refusal? (operator : String) : Except EvalError Expr → Option EvalError
  | .ok (.num _) => none
  | .ok .null => none
  | .ok value => some (.typeMismatch operator "number" value.kindName)
  | .error error => some error

/--
What arithmetic gives for the answers of its arguments: the first failure, or the
numbers folded from the left, of which there must be one to begin with.
-/
def foldAnswers (operator : String) (op : Binary32 → Binary32 → Binary32)
    (answers : List (Except EvalError Expr)) : Except EvalError Expr :=
  match answers.findSome? (refusal? operator) with
  | some error => .error error
  | none =>
      match answers.filterMap answeredNumber? with
      | [] => .error (.typeMismatch operator "at least one number" "no numeric arguments")
      | first :: rest => .ok (.num (rest.foldl op first))

section Arithmetic

variable {operator : String} {op : Binary32 → Binary32 → Binary32}

/-!
# Folding numbers

Once there is a number, all further ones are folded into it.
-/

theorem eq_of_refusal?_eq_none {answer : Except EvalError Expr}
    (h : refusal? operator answer = none) : answer = .ok .null ∨ ∃ x, answer = .ok (.num x) := by
  cases answer with
  | error error =>
      cases h
  | ok value =>
      cases value with
      | num x =>
          exact .inr ⟨x, rfl⟩
      | null =>
          exact .inl rfl
      | _ =>
          cases h

theorem verdict_of_refusal {answer : Except EvalError Expr} {error : EvalError}
    (h : refusal? operator answer = some error) (total : Option Binary32) :
    (Rule.fold operator op).verdict total answer = .fail error := by
  cases answer with
  | error error' =>
      cases h
      rfl
  | ok value =>
      cases total <;> cases value <;> cases h <;> rfl

theorem run_fold_of_refusal {answers : List (Except EvalError Expr)} {error : EvalError}
    (h : answers.findSome? (refusal? operator) = some error) (total : Option Binary32) :
    (Rule.fold operator op).run total answers = .fail error := by
  induction answers generalizing total with
  | nil =>
      cases h
  | cons answer rest ih =>
      rw [List.findSome?_cons] at h
      cases hrefusal : refusal? operator answer with
      | some error' =>
          rw [hrefusal] at h
          cases h
          rw [Rule.run, verdict_of_refusal hrefusal]
      | none =>
          rw [hrefusal] at h
          rcases eq_of_refusal?_eq_none hrefusal with rfl | ⟨x, rfl⟩
          · exact ih h total
          · cases total with
            | none =>
                exact ih h (some x)
            | some sum =>
                exact ih h (some (op sum x))

theorem run_fold_some {answers : List (Except EvalError Expr)}
    (h : answers.findSome? (refusal? operator) = none) (total : Binary32) :
    (Rule.fold operator op).run (some total) answers =
      .next (some ((answers.filterMap answeredNumber?).foldl op total)) := by
  induction answers generalizing total with
  | nil =>
      rfl
  | cons answer rest ih =>
      rw [List.findSome?_eq_none_iff, List.forall_mem_cons, ← List.findSome?_eq_none_iff] at h
      rcases eq_of_refusal?_eq_none h.1 with rfl | ⟨x, rfl⟩
      · exact ih h.2 total
      · exact ih h.2 (op total x)

theorem run_fold_none {answers : List (Except EvalError Expr)}
    (h : answers.findSome? (refusal? operator) = none) :
    (Rule.fold operator op).run none answers =
      match answers.filterMap answeredNumber? with
      | [] => .next none
      | first :: rest => .next (some (rest.foldl op first)) := by
  induction answers with
  | nil =>
      rfl
  | cons answer rest ih =>
      rw [List.findSome?_eq_none_iff, List.forall_mem_cons, ← List.findSome?_eq_none_iff] at h
      rcases eq_of_refusal?_eq_none h.1 with rfl | ⟨x, rfl⟩
      · exact ih h.2
      · exact run_fold_some h.2 x

theorem judge_fold (answers : List (Except EvalError Expr)) :
    (Rule.fold operator op).judge none answers = foldAnswers operator op answers := by
  unfold Rule.judge foldAnswers
  cases hrefusal : answers.findSome? (refusal? operator) with
  | some error =>
      rw [run_fold_of_refusal hrefusal]
  | none =>
      rw [run_fold_none hrefusal]
      cases answers.filterMap answeredNumber? <;> rfl

theorem eq_null_of_isPassedOver {answer : Except EvalError Expr} (h : isPassedOver answer = true) :
    answer = .ok .null := by
  unfold isPassedOver at h
  split at h
  · rfl
  · cases h

theorem findSome?_of_passedOver (answers : List (Except EvalError Expr)) :
    (answers.filter fun answer => !isPassedOver answer).findSome? (refusal? operator) =
      answers.findSome? (refusal? operator) := by
  induction answers with
  | nil =>
      rfl
  | cons answer rest ih =>
      cases hpassed : isPassedOver answer with
      | false =>
          rw [List.filter_cons_of_pos (by simp [hpassed]), List.findSome?_cons, List.findSome?_cons,
            ih]
      | true =>
          rw [List.filter_cons_of_neg (by simp [hpassed]), ih, eq_null_of_isPassedOver hpassed]
          rfl

theorem filterMap_of_passedOver (answers : List (Except EvalError Expr)) :
    (answers.filter fun answer => !isPassedOver answer).filterMap answeredNumber? =
      answers.filterMap answeredNumber? := by
  rw [List.filterMap_filter]
  apply List.filterMap_congr
  intro answer _
  cases hpassed : isPassedOver answer with
  | false =>
      rfl
  | true =>
      rw [eq_null_of_isPassedOver hpassed]
      rfl

/-- Answers that are passed over make no difference. -/
theorem foldAnswers_filter (answers : List (Except EvalError Expr)) :
    foldAnswers operator op (answers.filter fun answer => !isPassedOver answer) =
      foldAnswers operator op answers := by
  rw [foldAnswers, foldAnswers, findSome?_of_passedOver, filterMap_of_passedOver]

end Arithmetic

namespace Interpreter

/--
Arithmetic is a left fold that stops at the first failure.  What an operator gives
is known from what each of its arguments gives alone, and evaluation goes on in the
scope of the call.  So arguments that give null may be put in or left out anywhere,
and neither value nor error changes.
-/
theorem arithmetic_folds_answers {limit : Nat} {s : Store} {scope : ScopeId} (hs : s.Closed)
    (hscope : scope.Within s.extent) (levels : Nat) (op : Arithmetic) :
    let compute := (Builtin.arithmetic op).body ((limited limit).evalAt levels) scope
    let answer := (limited limit).alone levels scope .expanding s
    (∀ args, Expr.WithinAll s.extent args →
      EvalM.Answers scope (compute args s) (foldAnswers op.name op.apply (args.map answer))) ∧
    ∀ args args', Expr.WithinAll s.extent args → Expr.WithinAll s.extent args' →
      (args'.filter fun arg => !isPassedOver (answer arg)) =
        (args.filter fun arg => !isPassedOver (answer arg)) →
      EvalM.answer (compute args' s) = EvalM.answer (compute args s) := by
  intro compute answer
  have hanswers : ∀ args, Expr.WithinAll s.extent args →
      EvalM.Answers scope (compute args s) (foldAnswers op.name op.apply (args.map answer)) := by
    intro args hargs
    rw [← judge_fold]
    exact sweep_answers (limited_ample limit) hs hscope (Rule.fold_lawful ..) hargs levels none
  refine ⟨hanswers, ?_⟩
  intro args args' hargs hargs' hsame
  have hused (args : List Expr) :
      foldAnswers op.name op.apply (args.map answer) = foldAnswers op.name op.apply
        ((args.filter fun arg => !isPassedOver (answer arg)).map answer) := by
    rw [← foldAnswers_filter, List.filter_map]
    rfl
  rw [(hanswers args' hargs').answer_eq, (hanswers args hargs).answer_eq, hused args', hsame,
    ← hused args]

/--
In `(+ 1 NIL 1)` the null value is passed over, and `(+ NIL "a" ())` fails at the
string, before the empty list.
-/
theorem arithmetic_folds_answers_mixed :
    let compute := (Builtin.arithmetic .add).body ((limited 10).evalAt 5) Store.first
    let args : List Expr := [.num .one, .atom "NIL", .num .one]
    Store.library.Closed ∧ Store.first.Within Store.library.extent ∧
    EvalM.Answers Store.first (compute args Store.library)
      (.ok (.num (Arithmetic.apply .add .one .one))) ∧
    EvalM.answer (compute [.num .one, .num .one] Store.library) =
      EvalM.answer (compute args Store.library) ∧
    EvalM.Answers Store.first (compute [.atom "NIL", .str "a", .list []] Store.library)
      (.error (.typeMismatch "+" "number" "string")) := by
  intro compute args
  have hfold := @arithmetic_folds_answers 10 _ _ Store.closed_library
    Store.first_within_library 5 .add
  have hargs : Expr.WithinAll Store.library.extent args := by
    simp [args, Expr.WithinAll, Expr.Within]
  refine ⟨Store.closed_library, Store.first_within_library, hfold.1 args hargs, ?_, ?_⟩
  · exact hfold.2 args [.num .one, .num .one] hargs (by simp [Expr.WithinAll, Expr.Within]) rfl
  · exact hfold.1 [.atom "NIL", .str "a", .list []] (by simp [Expr.WithinAll, Expr.Within])

end Interpreter

/-!
# Chains

A chain ends at an answer that is an error or no number, or to which the number
before it does not relate.  The first such breach decides, and no answer behind
it is needed.
-/

/--
What ends a chain of comparisons at an answer, given the number before it: the
answer is an error, or no number, or a number to which the one before does not
relate.
-/
def breach? (operator : String) (holds : Binary32 → Binary32 → Bool)
    (previous : Option Binary32) : Except EvalError Expr → Option (Except EvalError Expr)
  | .ok (.num y) =>
      match previous with
      | some x => if holds x y then none else some (.ok .null)
      | none => none
  | .ok value => some (.error (.typeMismatch operator "number" value.kindName))
  | .error error => some (.error error)

def breachAt? (operator : String) (holds : Binary32 → Binary32 → Bool) :
    (previous : Option Binary32) → List (Except EvalError Expr) → Nat →
      Option (Except EvalError Expr)
  | _, [], _ => none
  | previous, answer :: _, 0 => breach? operator holds previous answer
  | _, answer :: rest, k + 1 => breachAt? operator holds (answeredNumber? answer) rest k

def Verdict.deciding {σ : Type} : Except EvalError Expr → Verdict σ
  | .ok value => .stop value
  | .error error => .fail error

section Comparison

variable {operator : String} {holds : Binary32 → Binary32 → Bool} {previous : Option Binary32}

theorem verdict_of_breach {answer outcome : Except EvalError Expr}
    (h : breach? operator holds previous answer = some outcome) :
    (Rule.chain operator holds).verdict previous answer = .deciding outcome := by
  cases answer with
  | error error =>
      cases h
      rfl
  | ok value =>
      cases value with
      | num y =>
          cases previous with
          | none =>
              cases h
          | some x =>
              cases hholds : holds x y with
              | true =>
                  simp [breach?, hholds] at h
              | false =>
                  simp only [breach?, hholds] at h
                  cases h
                  simp [Rule.verdict, Rule.chain, hholds, Verdict.deciding]
      | _ =>
          cases h
          cases previous <;> rfl

theorem verdict_of_no_breach {answer : Except EvalError Expr}
    (h : breach? operator holds previous answer = none) :
    (Rule.chain operator holds).verdict previous answer = .next (answeredNumber? answer) := by
  cases answer with
  | error error =>
      cases h
  | ok value =>
      cases value with
      | num y =>
          cases previous with
          | none =>
              rfl
          | some x =>
              cases hholds : holds x y with
              | true =>
                  simp [Rule.verdict, Rule.chain, hholds, answeredNumber?]
              | false =>
                  simp [breach?, hholds] at h
      | _ =>
          cases h

theorem run_chain_of_no_breach {answers : List (Except EvalError Expr)}
    (h : ∀ k, breachAt? operator holds previous answers k = none) :
    ∃ last, (Rule.chain operator holds).run previous answers = .next last := by
  induction answers generalizing previous with
  | nil =>
      exact ⟨previous, rfl⟩
  | cons answer rest ih =>
      rw [Rule.run, verdict_of_no_breach (h 0)]
      exact ih fun k => h (k + 1)

theorem run_chain_of_breach {answers : List (Except EvalError Expr)} {k : Nat}
    {outcome : Except EvalError Expr}
    (h : breachAt? operator holds previous answers k = some outcome)
    (hbefore : ∀ j, j < k → breachAt? operator holds previous answers j = none) :
    (Rule.chain operator holds).run previous (answers.take (k + 1)) = .deciding outcome := by
  induction answers generalizing previous k with
  | nil =>
      cases h
  | cons answer rest ih =>
      cases k with
      | zero =>
          rw [List.take_succ_cons, Rule.run, verdict_of_breach h]
          cases outcome <;> rfl
      | succ k =>
          have hfirst : breach? operator holds previous answer = none := hbefore 0 (Nat.succ_pos k)
          rw [List.take_succ_cons, Rule.run, verdict_of_no_breach hfirst]
          exact ih h fun j hj => hbefore (j + 1) (Nat.succ_lt_succ hj)

/-!
# Chains of numbers

On numbers alone a chain says whether all neighbours are in relation.  Read
backwards it is a chain for the converse relation.
-/

theorem judge_chain_some (x : Binary32) (xs : List Binary32) :
    (Rule.chain operator holds).judge (some x) (xs.map fun x => .ok (.num x)) =
      .ok (.ofBool (decide ((x :: xs).IsChain fun x y => holds x y = true))) := by
  induction xs generalizing x with
  | nil =>
      simp [Rule.judge, Rule.run, Rule.chain, Expr.ofBool]
  | cons y ys ih =>
      cases hholds : holds x y with
      | true =>
          have hnext : (Rule.chain operator holds).verdict (some x) (.ok (.num y)) =
              .next (some y) := by
            simp [Rule.verdict, Rule.chain, hholds]
          have hrest := ih y
          rw [Rule.judge] at hrest ⊢
          rw [List.map_cons, Rule.run, hnext]
          simp only [List.isChain_cons_cons, hholds, true_and]
          exact hrest
      | false =>
          have hstop : (Rule.chain operator holds).verdict (some x) (.ok (.num y)) =
              .stop .null := by
            simp [Rule.verdict, Rule.chain, hholds]
          rw [Rule.judge, List.map_cons, Rule.run, hstop]
          simp [hholds, Expr.ofBool]

theorem judge_chain_numbers (xs : List Binary32) :
    (Rule.chain operator holds).judge none (xs.map fun x => .ok (.num x)) =
      .ok (.ofBool (decide (xs.IsChain fun x y => holds x y = true))) := by
  cases xs with
  | nil =>
      simp [Rule.judge, Rule.run, Rule.chain, Expr.ofBool]
  | cons x xs =>
      exact judge_chain_some x xs

/-- A chain read backwards is a chain for the converse relation. -/
theorem judge_chain_reverse (operator operator' : String) (xs : List Binary32) :
    (Rule.chain operator' fun x y => holds y x).judge none (xs.reverse.map fun x => .ok (.num x)) =
      (Rule.chain operator holds).judge none (xs.map fun x => .ok (.num x)) := by
  rw [judge_chain_numbers, judge_chain_numbers]
  simp only [List.isChain_reverse]

end Comparison

theorem exists_numbers {answer : Expr → Except EvalError Expr} {args : List Expr}
    (h : ∀ arg ∈ args, ∃ x, answer arg = .ok (.num x)) :
    ∃ xs : List Binary32, args.map answer = xs.map fun x => .ok (.num x) := by
  induction args with
  | nil =>
      exact ⟨[], rfl⟩
  | cons arg rest ih =>
      rcases h arg (List.mem_cons_self ..) with ⟨x, hx⟩
      rcases ih fun arg hmem => h arg (List.mem_cons_of_mem _ hmem) with ⟨xs, hxs⟩
      exact ⟨x :: xs, by rw [List.map_cons, List.map_cons, hx, hxs]⟩

namespace Interpreter

variable {limit : Nat} {s : Store} {scope : ScopeId} {args : List Expr}

theorem comparison_answers (limit : Nat) (hs : s.Closed) (hscope : scope.Within s.extent)
    (hargs : Expr.WithinAll s.extent args) (levels : Nat) (op : Comparison) :
    EvalM.Answers scope
      ((Builtin.comparison op).body ((limited limit).evalAt levels) scope args s)
      ((Rule.chain op.name op.holds).judge none
        (args.map ((limited limit).alone levels scope .expanding s))) :=
  sweep_answers (limited_ample limit) hs hscope (Rule.chain_lawful ..) hargs levels none

theorem comparison_reverse (hs : s.Closed) (hscope : scope.Within s.extent)
    (hargs : Expr.WithinAll s.extent args) (levels : Nat) {op op' : Comparison}
    (hop : op'.holds = fun x y => op.holds y x)
    (hnumbers : ∀ arg ∈ args, ∃ x, (limited limit).alone levels scope .expanding s arg =
      .ok (.num x)) :
    ∃ value,
      EvalM.Answers scope
        ((Builtin.comparison op).body ((limited limit).evalAt levels) scope args s) (.ok value) ∧
      EvalM.Answers scope
        ((Builtin.comparison op').body ((limited limit).evalAt levels) scope args.reverse s)
        (.ok value) := by
  have hargs' : Expr.WithinAll s.extent args.reverse := by
    rw [Expr.withinAll_iff] at hargs ⊢
    intro e hmem
    exact hargs e (List.mem_reverse.mp hmem)
  have hforth := comparison_answers limit hs hscope hargs levels op
  have hback := comparison_answers limit hs hscope hargs' levels op'
  rcases exists_numbers hnumbers with ⟨xs, hxs⟩
  rw [hxs, judge_chain_numbers] at hforth
  rw [List.map_reverse, hxs, ← List.map_reverse, hop, judge_chain_reverse op.name,
    judge_chain_numbers] at hback
  exact ⟨_, hforth, hback⟩

/--
A comparison decides neighbours and ends at the first breach.  Without a breach it
gives `T`.  Otherwise the first breach is its outcome, and any arguments may stand
behind it: outcome and store are the same.  Evaluation goes on in the scope of the
call.  On numbers each of `>` and `>=` is its converse on the arguments backwards.
-/
theorem comparison_ends_at_first_breach {limit : Nat} {s : Store} {scope : ScopeId}
    {args : List Expr} (hs : s.Closed) (hscope : scope.Within s.extent)
    (hargs : Expr.WithinAll s.extent args) (levels : Nat) :
    let compare := fun op => (Builtin.comparison op).body ((limited limit).evalAt levels) scope
    let answer := (limited limit).alone levels scope .expanding s
    (∀ op : Comparison,
      ((∀ k, breachAt? op.name op.holds none (args.map answer) k = none) →
        EvalM.Answers scope (compare op args s) (.ok .truth)) ∧
      ∀ k outcome, breachAt? op.name op.holds none (args.map answer) k = some outcome →
        (∀ j, j < k → breachAt? op.name op.holds none (args.map answer) j = none) →
          EvalM.Answers scope (compare op args s) outcome ∧
          ∀ rest, compare op (args.take (k + 1) ++ rest) s = compare op args s) ∧
    ((∀ arg ∈ args, ∃ x, answer arg = .ok (.num x)) →
      (∃ value, EvalM.Answers scope (compare .greater args s) (.ok value) ∧
        EvalM.Answers scope (compare .less args.reverse s) (.ok value)) ∧
      ∃ value, EvalM.Answers scope (compare .atLeast args s) (.ok value) ∧
        EvalM.Answers scope (compare .atMost args.reverse s) (.ok value)) := by
  intro compare answer
  refine ⟨?_, ?_⟩
  · intro op
    constructor
    · intro hnone
      have hall := comparison_answers limit hs hscope hargs levels op
      rcases run_chain_of_no_breach hnone with ⟨last, hlast⟩
      rw [Rule.judge, hlast] at hall
      exact hall
    · intro k outcome hbreach hbefore
      have hfirst : Expr.WithinAll s.extent (args.take (k + 1)) := by
        rw [Expr.withinAll_iff] at hargs ⊢
        intro e hmem
        exact hargs e (List.mem_of_mem_take hmem)
      rcases sweep_append (limited_ample limit) hs hscope (Rule.chain_lawful op.name op.holds)
        hs.growsTo_self hfirst levels none with ⟨t, _, hsweep⟩
      have hrun := run_chain_of_breach hbreach hbefore
      rw [← List.map_take] at hrun
      have hcut (rest : List Expr) : compare op (args.take (k + 1) ++ rest) s =
          (Rule.chain op.name op.holds).proceed ((limited limit).evalAt levels) scope rest
            (.deciding outcome) t := by
        rw [← hrun]
        exact hsweep rest
      have hwhole := hcut (args.drop (k + 1))
      rw [List.take_append_drop] at hwhole
      rw [hwhole]
      cases outcome with
      | ok value =>
          exact ⟨.ok value t, hcut⟩
      | error error =>
          exact ⟨.error error t, hcut⟩
  · intro hnumbers
    exact ⟨comparison_reverse hs hscope hargs levels rfl hnumbers,
      comparison_reverse hs hscope hargs levels rfl hnumbers⟩

/--
In `(< 1 1 ())` the second argument is the first breach, so the empty list may be
replaced by a string.  `(> 1 -1)` is `(< -1 1)`.
-/
theorem comparison_ends_at_first_breach_repeated :
    let compare := fun op => (Builtin.comparison op).body ((limited 10).evalAt 5) Store.first
    let answer := (limited 10).alone 5 Store.first .expanding Store.library
    let args : List Expr := [.num .one, .num .one, .list []]
    let numbers : List Expr := [.num .one, .num (.neg .one)]
    Store.library.Closed ∧ Store.first.Within Store.library.extent ∧
    (∀ j, j < 1 → breachAt? "<" (Comparison.holds .less) none (args.map answer) j = none) ∧
    breachAt? "<" (Comparison.holds .less) none (args.map answer) 1 = some (.ok .null) ∧
    EvalM.Answers Store.first (compare .less args Store.library) (.ok .null) ∧
    compare .less [.num .one, .num .one, .str "a"] Store.library =
      compare .less args Store.library ∧
    (∀ arg ∈ numbers, ∃ x, answer arg = .ok (.num x)) ∧
    ∃ value, EvalM.Answers Store.first (compare .greater numbers Store.library) (.ok value) ∧
      EvalM.Answers Store.first (compare .less numbers.reverse Store.library) (.ok value) := by
  intro compare answer args numbers
  have hargs : Expr.WithinAll Store.library.extent args := by
    simp [args, Expr.WithinAll, Expr.Within]
  have hnumbers : Expr.WithinAll Store.library.extent numbers := by
    simp [numbers, Expr.WithinAll, Expr.Within]
  have hbefore : ∀ j, j < 1 →
      breachAt? "<" (Comparison.holds .less) none (args.map answer) j = none := by
    intro j hj
    cases Nat.lt_one_iff.mp hj
    rfl
  have hbreach : breachAt? "<" (Comparison.holds .less) none (args.map answer) 1 =
      some (.ok .null) := rfl
  have hall : ∀ arg ∈ numbers, ∃ x, answer arg = .ok (.num x) := by
    intro arg hmem
    rcases List.mem_pair.mp hmem with rfl | rfl
    · exact ⟨_, rfl⟩
    · exact ⟨_, rfl⟩
  have hless := ((@comparison_ends_at_first_breach 10 _ _ _ Store.closed_library
    Store.first_within_library hargs 5).1 .less).2 1 _ hbreach hbefore
  have hreverse := (@comparison_ends_at_first_breach 10 _ _ _ Store.closed_library
    Store.first_within_library hnumbers 5).2 hall
  exact ⟨Store.closed_library, Store.first_within_library, hbefore, hbreach, hless.1,
    hless.2 [.str "a"], hall, hreverse.1⟩

end Interpreter
end ScopeLisp
