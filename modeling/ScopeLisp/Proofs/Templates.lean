import ScopeLisp.Proofs.Independence

/-!
# Templates

## Pairs

The percent signs of a template pair up from the left with the characters behind
them.  A template that does not end in a percent sign without a partner can be
continued without any pair being read differently.

## Arguments

Each pair takes one argument while there are any, and nothing else does.  So a
template can be cut behind its pairs and the arguments along with it, and
arguments for which there are no pairs are not looked at.

## Pieces on their own

Filling a piece leaves a store that has grown, on which the next piece gives the
text that it gives by itself.
-/

namespace ScopeLisp

namespace Template

/-!
# Pairs

Templates are read pair by pair, not character by character.
-/

def pairs : List Char → Nat
  | [] => 0
  | '%' :: _ :: rest => pairs rest + 1
  | _ :: rest => pairs rest

/-- Read from the left, a template does not end in a percent sign without a partner. -/
def isPaired : List Char → Bool
  | [] => true
  | ['%'] => false
  | '%' :: _ :: rest => isPaired rest
  | _ :: rest => isPaired rest

/-- Templates are read pair by pair, not character by character. -/
@[elab_as_elim]
theorem induction {motive : List Char → Prop} (nil : motive []) (percent : motive ['%'])
    (pair : ∀ directive rest, motive rest → motive ('%' :: directive :: rest))
    (plain : ∀ c rest, c ≠ '%' → motive rest → motive (c :: rest)) : ∀ template, motive template
  | [] => nil
  | [c] =>
      if hc : c = '%' then hc ▸ percent
      else plain c [] hc nil
  | c :: directive :: rest =>
      if hc : c = '%' then hc ▸ pair directive rest (induction nil percent pair plain rest)
      else plain c _ hc (induction nil percent pair plain (directive :: rest))

theorem pairs_of_ne {c : Char} (hc : c ≠ '%') (rest : List Char) :
    pairs (c :: rest) = pairs rest := by
  rw [pairs]
  intro directive tail h
  exact (hc h).elim

theorem isPaired_of_ne {c : Char} (hc : c ≠ '%') (rest : List Char) :
    isPaired (c :: rest) = isPaired rest := by
  rw [isPaired]
  all_goals
    intros
    simp_all

/-!
# Arguments

A pair with a number of pairs before it writes the argument with as many
arguments before it.
-/

def fill (eval : Evaluator) (scope : ScopeId) (directive : Char) (arg : Expr) :
    EvalM (List Char) :=
  if directive = 'd' then do
    let result ← eval scope arg .nearest
    EvalM.ofExcept (numberChars result.value)
  else
    throw (.unknownDirective directive)

end Template

variable {eval : Evaluator} {scope : ScopeId}

theorem interpolate_pair_nil (directive : Char) (rest : List Char) :
    interpolate eval scope ('%' :: directive :: rest) [] = (do
      let text ← interpolate eval scope rest []
      return '%' :: directive :: text) := by
  rw [interpolate]

theorem interpolate_pair_cons (directive : Char) (rest : List Char) (arg : Expr)
    (args : List Expr) :
    interpolate eval scope ('%' :: directive :: rest) (arg :: args) = (do
      let written ← Template.fill eval scope directive arg
      let text ← interpolate eval scope rest args
      return written ++ text) := by
  rw [interpolate, Template.fill]
  split
  · rw [bind_assoc]
  · rfl

theorem interpolate_no_args (template : List Char) :
    interpolate eval scope template [] = pure template := by
  induction template using Template.induction with
  | nil =>
      rw [interpolate_nil]
  | percent =>
      rw [interpolate]
  | pair directive rest ih =>
      rw [interpolate_pair_nil, ih, pure_bind]
  | plain c rest hc ih =>
      rw [Agreement.interpolate_of_ne eval scope hc, ih, pure_bind]

/-- Behind its pairs a template can be cut, and the arguments along with it. -/
theorem interpolate_append {t₁ : List Char} (hpaired : Template.isPaired t₁) (t₂ : List Char)
    (args : List Expr) :
    interpolate eval scope (t₁ ++ t₂) args = (do
      let text₁ ← interpolate eval scope t₁ args
      let text₂ ← interpolate eval scope t₂ (args.drop (Template.pairs t₁))
      return text₁ ++ text₂) := by
  induction t₁ using Template.induction generalizing args with
  | nil =>
      simp [Template.pairs]
  | percent =>
      exact (Bool.false_ne_true hpaired).elim
  | pair directive rest ih =>
      have ih := ih hpaired
      cases args with
      | nil =>
          simp only [List.cons_append, interpolate_pair_nil, ih, List.drop_nil, bind_assoc,
            pure_bind]
      | cons arg args =>
          simp only [List.cons_append, interpolate_pair_cons, ih, Template.pairs,
            List.drop_succ_cons, bind_assoc, pure_bind, List.append_assoc]
  | plain c rest hc ih =>
      rw [Template.isPaired_of_ne hc] at hpaired
      simp only [List.cons_append, Agreement.interpolate_of_ne eval scope hc, ih hpaired,
        Template.pairs_of_ne hc, bind_assoc, pure_bind]

theorem interpolate_append_args {template : List Char} {args : List Expr}
    (henough : Template.pairs template ≤ args.length) (rest : List Expr) :
    interpolate eval scope template (args ++ rest) = interpolate eval scope template args := by
  induction template using Template.induction generalizing args with
  | nil =>
      rw [interpolate_nil, interpolate_nil]
  | percent =>
      rw [interpolate, interpolate]
  | pair directive tail ih =>
      cases args with
      | nil =>
          exact (Nat.not_succ_le_zero _ henough).elim
      | cons arg args =>
          have htail := ih (Nat.le_of_succ_le_succ henough)
          rw [List.cons_append, interpolate_pair_cons, interpolate_pair_cons, htail]
  | plain c tail hc ih =>
      rw [Template.pairs_of_ne hc] at henough
      rw [Agreement.interpolate_of_ne eval scope hc, Agreement.interpolate_of_ne eval scope hc,
        ih henough]

/--
Pairs take arguments in their order: a pair with a given number of pairs before
it writes the argument with that number of arguments before it.
-/
theorem interpolate_at_pair {t₁ : List Char} (hpaired : Template.isPaired t₁) {args : List Expr}
    (hlength : args.length = Template.pairs t₁) (directive : Char) (t₂ : List Char) (arg : Expr)
    (rest : List Expr) :
    interpolate eval scope (t₁ ++ '%' :: directive :: t₂) (args ++ arg :: rest) = (do
      let text₁ ← interpolate eval scope t₁ args
      let written ← Template.fill eval scope directive arg
      let text₂ ← interpolate eval scope t₂ rest
      return text₁ ++ (written ++ text₂)) := by
  rw [interpolate_append hpaired, interpolate_append_args hlength.ge, ← hlength,
    List.drop_left, interpolate_pair_cons]
  simp only [bind_assoc, pure_bind]

/-!
# Pieces on their own

A template gives the same text or error on a store that has grown.
-/

def EvalM.outcome {α : Type} : EStateM.Result EvalError Store α → Except EvalError α
  | .ok a _ => .ok a
  | .error error _ => .error error

theorem EvalM.outcome_bind_pure {α β : Type} (act : EvalM α) (f : α → β) (s : Store) :
    outcome ((do return f (← act)) s) = (do return f (← outcome (act s))) := by
  cases h : act s with
  | ok a t =>
      rw [bind_of_eq_ok h]
      rfl
  | error error t =>
      rw [bind_of_eq_error h]
      rfl

namespace Interpreter

variable {i : Interpreter} {s u : Store} {args : List Expr}

theorem interpolate_growsTo (hi : i.Ample) (hs : s.Closed) (hscope : scope.Within s.extent)
    (hargs : Expr.WithinAll s.extent args) (levels : Nat) (template : List Char) :
    s.GrowsTo (EvalM.storeAfter (interpolate (i.evalAt levels) scope template args s)) := by
  have hsame : List.Forall₂ (fun e e' => e' = e ∧ e.Within s.extent) args args :=
    List.forall₂_same.mpr fun e he => ⟨rfl, Expr.withinAll_iff.mp hargs e he⟩
  have hrun := Agreement.interpolate
    (Agreement.strict_evalAt hi (Nat.le_max_right s.peak (s.inFlight + levels))) template
    ⟨rfl, hscope⟩ hsame s s ⟨rfl, rfl, hs.steady (Nat.le_max_left ..)⟩
  exact hrun.growsTo.1

theorem interpolate_again (hi : i.Ample) (hs : s.Closed) (hgrows : s.GrowsTo u)
    (hscope : scope.Within s.extent) (hargs : Expr.WithinAll s.extent args) (levels : Nat)
    (template : List Char) :
    EvalM.outcome (interpolate (i.evalAt levels) scope template args u) =
      EvalM.outcome (interpolate (i.evalAt levels) scope template args s) := by
  have hfixes := Renaming.shift_fixes s.extent u.extent
  have hsame : List.Forall₂ ((Agreement.renamed (.shift s.extent u.extent)).expr s.extent)
      args args := by
    refine List.forall₂_same.mpr fun e he => ?_
    have hwithin := Expr.withinAll_iff.mp hargs e he
    exact ⟨(hfixes.expr e hwithin).symm, hwithin⟩
  have hrun := Agreement.interpolate (Agreement.renamed_evalAt hi _ levels) template
    ⟨(hfixes.1 scope hscope).symm, hscope⟩ hsame s u ⟨rfl, hs, hgrows.renamed hs⟩
  generalize interpolate (i.evalAt levels) scope template args s = first at hrun ⊢
  generalize interpolate (i.evalAt levels) scope template args u = second at hrun ⊢
  cases hrun with
  | ok hlater hresult hstore =>
      rw [EvalM.outcome, EvalM.outcome, hresult]
  | error hlater hshared hstore =>
      rfl
  | excused hfalse =>
      exact hfalse.elim

theorem outcome_interpolate_append (hi : i.Ample) (hs : s.Closed) (hscope : scope.Within s.extent)
    (hargs : Expr.WithinAll s.extent args) (levels : Nat) {t₁ : List Char}
    (hpaired : Template.isPaired t₁) (t₂ : List Char) :
    EvalM.outcome (interpolate (i.evalAt levels) scope (t₁ ++ t₂) args s) = (do
      let text₁ ← EvalM.outcome (interpolate (i.evalAt levels) scope t₁ args s)
      let text₂ ← EvalM.outcome
        (interpolate (i.evalAt levels) scope t₂ (args.drop (Template.pairs t₁)) s)
      return text₁ ++ text₂) := by
  have hgrows := interpolate_growsTo hi hs hscope hargs levels t₁
  have hrest : Expr.WithinAll s.extent (args.drop (Template.pairs t₁)) :=
    Expr.withinAll_iff.mpr fun e he => Expr.withinAll_iff.mp hargs e (List.mem_of_mem_drop he)
  rw [interpolate_append hpaired]
  cases hfirst : interpolate (i.evalAt levels) scope t₁ args s with
  | error error t =>
      rw [EvalM.bind_of_eq_error hfirst]
      rfl
  | ok text₁ t =>
      rw [hfirst, EvalM.storeAfter] at hgrows
      rw [EvalM.bind_of_eq_ok hfirst, EvalM.outcome_bind_pure,
        interpolate_again hi hs hgrows hscope hrest]
      rfl

/--
Filling a template is filling its pieces.  Behind a piece that is paired the rest
of the template goes on with the arguments that are left, one fewer for each
pair, and gives what it gives by itself: with the store as the first piece leaves
it, and also with the store as it was before.  A pair writes the argument that
stands as far behind as the pair does.  Without arguments the template is copied,
and arguments beyond the pairs make no difference.
-/
theorem interpolation_goes_by_pieces {limit : Nat} {s : Store} {scope : ScopeId} (hs : s.Closed)
    (hscope : scope.Within s.extent) (levels : Nat) :
    let eval := (limited limit).evalAt levels
    let fill := interpolate eval scope
    (∀ t₁ t₂ args, Template.isPaired t₁ → Expr.WithinAll s.extent args →
      EvalM.outcome (fill (t₁ ++ t₂) args s) = (do
        let text₁ ← EvalM.outcome (fill t₁ args s)
        let text₂ ← EvalM.outcome (fill t₂ (args.drop (Template.pairs t₁)) s)
        return text₁ ++ text₂)) ∧
    (∀ t₁ t₂ args, Template.isPaired t₁ →
      fill (t₁ ++ t₂) args = (do
        let text₁ ← fill t₁ args
        let text₂ ← fill t₂ (args.drop (Template.pairs t₁))
        return text₁ ++ text₂)) ∧
    (∀ t₁ t₂ directive args arg rest, Template.isPaired t₁ → args.length = Template.pairs t₁ →
      fill (t₁ ++ '%' :: directive :: t₂) (args ++ arg :: rest) = (do
        let text₁ ← fill t₁ args
        let written ← Template.fill eval scope directive arg
        let text₂ ← fill t₂ rest
        return text₁ ++ (written ++ text₂))) ∧
    (∀ template, fill template [] = pure template) ∧
    ∀ template args rest rest', Template.pairs template ≤ args.length →
      fill template (args ++ rest') = fill template (args ++ rest) := by
  intro eval fill
  refine ⟨?_, ?_, ?_, interpolate_no_args, ?_⟩
  · intro t₁ t₂ args hpaired hargs
    exact outcome_interpolate_append (limited_ample limit) hs hscope hargs levels hpaired t₂
  · intro t₁ t₂ args hpaired
    exact interpolate_append hpaired t₂ args
  · intro t₁ t₂ directive args arg rest hpaired hlength
    exact interpolate_at_pair hpaired hlength directive t₂ arg rest
  · intro template args rest rest' henough
    exact (interpolate_append_args henough rest').trans (interpolate_append_args henough rest).symm

theorem interpolation_goes_by_pieces_counting :
    let fill := interpolate ((limited 10).evalAt 5) Store.first
    let args : List Expr := [.num .one, .num .one]
    Store.library.Closed ∧ Store.first.Within Store.library.extent ∧
    Template.isPaired ['%', 'd', '/'] ∧ Template.pairs ['%', 'd', '/'] = 1 ∧
    EvalM.outcome (fill ['%', 'd', '/', '%', 'd', '%'] args Store.library) =
      .ok ['1', '/', '1', '%'] ∧
    EvalM.outcome (fill ['%', 'd', '/', '%', '%'] args Store.library) =
      .error (.unknownDirective '%') ∧
    fill ['%', 'd', '%'] (args ++ [.null]) = fill ['%', 'd', '%'] (args ++ []) := by
  intro fill args
  have hpieces := @interpolation_goes_by_pieces 10 _ _ Store.closed_library
    Store.first_within_library 5
  have hargs : Expr.WithinAll Store.library.extent args := by
    simp [args, Expr.WithinAll, Expr.Within]
  refine ⟨Store.closed_library, Store.first_within_library, by decide, by decide, ?_, ?_, ?_⟩
  · have hboth := hpieces.1 ['%', 'd', '/'] ['%', 'd', '%'] args (by decide) hargs
    exact hboth.trans (by decide +kernel)
  · exact (hpieces.1 ['%', 'd', '/'] ['%', '%'] args (by decide) hargs).trans (by rfl)
  · exact hpieces.2.2.2.2 ['%', 'd', '%'] args [] [.null] (by decide)

end Interpreter
end ScopeLisp
