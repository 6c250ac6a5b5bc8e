import ScopeLisp.Proofs.Positions

/-!
# Recursive descent

## A counter instead of a stack

An expression can also be read by descending into its lists and quotes, with a
counter that is raised on the way in and lowered on the way out, be it with an
expression or with an error.  The open frames are then nowhere but in the
structure of the descent.

## Agreement

A descent leaves the counter as it was and does what reading below a stack of
that height does.  So the height of the stack is the counter, and each reading
starts and ends with the counter at zero.
-/

namespace ScopeLisp
namespace Source

inductive Aim where
  | expression
  /-- The rest of a list, with its items so far, latest first. -/
  | items (start : Nat) (read : List Expr)

def quotedAnswer (length : Nat) : Except Error (Option Expr) → Except Error (Option Expr)
  | .error error => .error error
  | .ok none => .error ⟨.unexpectedEnd, .ofRange length length⟩
  | .ok (some e) => .ok (some (.quoted e))

/--
A descent into a source of `length` bytes: from a level and some tokens to an
answer, the level behind it, and where it stops.
-/
inductive Descends (length : Nat) :
    Aim → Nat → List Token → Except Error (Option Expr) → Nat → Reader → Prop where
  | atEnd (level : Nat) :
      Descends length .expression level [] (.ok none) level (.ended length)
  | leaf {level : Nat} {token : Token} {rest : List Token} {e : Expr}
      (h : step [] token = .done e) :
      Descends length .expression level (token :: rest) (.ok (some e)) level
        ⟨rest, token.stop, length⟩
  | refused {level : Nat} {token : Token} {rest : List Token} {error : Error}
      (h : step [] token = .refused error) :
      Descends length .expression level (token :: rest) (.error error) level
        ⟨token :: rest, token.start, length⟩
  | malformed {level : Nat} {token : Token} {rest : List Token} {error : Error}
      (h : step [] token = .malformed error) :
      Descends length .expression level (token :: rest) (.error error) level
        ⟨rest, token.stop, length⟩
  | tooDeep {level : Nat} {token : Token} {rest : List Token}
      (h : token.lexeme = .openList ∨ token.lexeme = .quote) (hlevel : maxNesting ≤ level) :
      Descends length .expression level (token :: rest)
        (.error ⟨.nestingTooDeep maxNesting, .ofRange token.start token.stop⟩) level
        ⟨token :: rest, token.start, length⟩
  | list {level last : Nat} {token : Token} {rest : List Token}
      {answer : Except Error (Option Expr)} {r : Reader} (h : token.lexeme = .openList)
      (hlevel : level < maxNesting)
      (hitems : Descends length (.items token.start []) (level + 1) rest answer last r) :
      Descends length .expression level (token :: rest) answer (last - 1) r
  | quote {level last : Nat} {token : Token} {rest : List Token}
      {answer : Except Error (Option Expr)} {r : Reader} (h : token.lexeme = .quote)
      (hlevel : level < maxNesting)
      (hbody : Descends length .expression (level + 1) rest answer last r) :
      Descends length .expression level (token :: rest) (quotedAnswer length answer) (last - 1) r
  | unclosed (level start : Nat) (read : List Expr) :
      Descends length (.items start read) level []
        (.error ⟨.unclosedList, .ofRange start length⟩) level (.ended length)
  | close {level start : Nat} {read : List Expr} {token : Token} {rest : List Token}
      (h : token.lexeme = .closeList) :
      Descends length (.items start read) level (token :: rest)
        (.ok (some (.list read.reverse))) level ⟨rest, token.stop, length⟩
  | item {level next last start : Nat} {read : List Expr} {token : Token} {rest : List Token}
      {e : Expr} {answer : Except Error (Option Expr)} {r r' : Reader}
      (h : token.lexeme ≠ .closeList)
      (hitem : Descends length .expression level (token :: rest) (.ok (some e)) next r)
      (hitems : Descends length (.items start (e :: read)) next r.pending answer last r') :
      Descends length (.items start read) level (token :: rest) answer last r'
  | failed {level last start : Nat} {read : List Expr} {token : Token} {rest : List Token}
      {error : Error} {r : Reader} (h : token.lexeme ≠ .closeList)
      (hitem : Descends length .expression level (token :: rest) (.error error) last r) :
      Descends length (.items start read) level (token :: rest) (.error error) last r

/-!
# Every descent is a reading

What a descent reads stands below some open frames.  The answer of the descent
is what reading puts there.
-/

def Aim.frames : Aim → List Frame
  | .expression => []
  | .items start read => [.list start read]

def WantsExpression : List Frame → List Token → Prop
  | .list _ _ :: _, token :: _ => token.lexeme ≠ .closeList
  | _, _ => True

/-!
# Reading below open frames

An answer is handed to the innermost open frame, and reading goes on below it.
A token that opens nothing does the same wherever an expression is wanted.
-/

/-- Hands an answer to the innermost open frame and reads on below it. -/
def resume (length : Nat) :
    List Frame → Except Error (Option Expr) → Reader → Except Error (Option Expr) × Reader
  | [], answer, r => (answer, r)
  | .quote :: below, answer, r => resume length below (quotedAnswer length answer) r
  | .list start read :: below, .ok (some e), r =>
      Reader.readOn length (.list start (e :: read) :: below) r.pending
  | .list start _ :: _, .ok none, r => (.error ⟨.unclosedList, .ofRange start length⟩, r)
  | .list _ _ :: _, .error error, r => (.error error, r)

theorem resume_error (length : Nat) (stack : List Frame) (error : Error) (r : Reader) :
    resume length stack (.error error) r = (.error error, r) := by
  induction stack with
  | nil =>
      rfl
  | cons frame below ih =>
      cases frame with
      | quote => exact ih
      | list start read => rfl

theorem readOn_nil (length : Nat) (stack : List Frame) :
    Reader.readOn length stack [] = resume length stack (.ok none) (.ended length) := by
  cases stack with
  | nil =>
      rfl
  | cons frame below =>
      cases frame with
      | quote => exact (resume_error length below _ _).symm
      | list start read => rfl

theorem readOn_of_place {length : Nat} {stack below : List Frame} {token : Token} {e : Expr}
    (h : step stack token = place e below) (rest : List Token) :
    Reader.readOn length stack (token :: rest) =
      resume length below (.ok (some e)) ⟨rest, token.stop, length⟩ := by
  induction below generalizing e with
  | nil =>
      rw [Reader.readOn_cons, h]
      rfl
  | cons frame below ih =>
      cases frame with
      | quote =>
          exact ih h
      | list start read =>
          rw [Reader.readOn_cons, h]
          rfl

theorem readOn_of_refused {length : Nat} {stack : List Frame} {token : Token} {error : Error}
    (h : step stack token = .refused error) (below : List Frame) (rest : List Token) :
    Reader.readOn length stack (token :: rest) =
      resume length below (.error error) ⟨token :: rest, token.start, length⟩ := by
  rw [Reader.readOn_cons, h, resume_error]
  rfl

theorem readOn_of_malformed {length : Nat} {stack : List Frame} {token : Token} {error : Error}
    (h : step stack token = .malformed error) (below : List Frame) (rest : List Token) :
    Reader.readOn length stack (token :: rest) =
      resume length below (.error error) ⟨rest, token.stop, length⟩ := by
  rw [Reader.readOn_cons, h, resume_error]
  rfl

theorem readOn_of_push {length : Nat} {stack next : List Frame} {token : Token}
    (h : step stack token = .push next) (rest : List Token) :
    Reader.readOn length stack (token :: rest) = Reader.readOn length next rest := by
  rw [Reader.readOn_cons, h]
  rfl

theorem step_openList {token : Token} (h : token.lexeme = .openList) (stack : List Frame) :
    step stack token = descend token (.list token.start []) stack := by
  rcases token with ⟨_, start, stop⟩
  cases h
  rfl

theorem step_quote {token : Token} (h : token.lexeme = .quote) (stack : List Frame) :
    step stack token = descend token .quote stack := by
  rcases token with ⟨_, start, stop⟩
  cases h
  rfl

theorem step_closeList {token : Token} (h : token.lexeme = .closeList) (start : Nat)
    (read : List Expr) (below : List Frame) :
    step (.list start read :: below) token = place (.list read.reverse) below := by
  rcases token with ⟨_, _, stop⟩
  cases h
  rfl

theorem step_of_step_nil {stack : List Frame} {token : Token} {rest : List Token}
    (h : WantsExpression stack (token :: rest)) :
    match step [] token with
    | .push _ => True
    | .done e => step stack token = place e stack
    | .refused error => step stack token = .refused error
    | .malformed error => step stack token = .malformed error := by
  rcases token with ⟨lexeme, start, stop⟩
  cases lexeme with
  | closeList =>
      cases stack with
      | nil =>
          rfl
      | cons frame below =>
          cases frame with
          | quote => rfl
          | list _ _ => exact absurd rfl h
  | openList => trivial
  | quote => trivial
  | hash => rfl
  | atom name => rfl
  | str text => rfl
  | num value => rfl
  | badEscape offset c => rfl
  | badNumber word => rfl

variable {length : Nat}

/-!
# Descents agree with readings

The induction is on the descent.  Handing an answer to a quote is handing the
quoted answer to what is below it.
-/

theorem Descends.agrees {aim : Aim} {level last : Nat} {tokens : List Token}
    {answer : Except Error (Option Expr)} {r : Reader}
    (h : Descends length aim level tokens answer last r) :
    last = level ∧ ∀ below, (aim.frames ++ below).length = level →
      (aim = .expression → WantsExpression below tokens) →
      Reader.readOn length (aim.frames ++ below) tokens = resume length below answer r := by
  induction h with
  | atEnd level =>
      exact ⟨rfl, fun below _ _ => readOn_nil length below⟩
  | leaf h =>
      refine ⟨rfl, fun below _ hwants => readOn_of_place ?_ _⟩
      have hstep := step_of_step_nil (hwants rfl)
      rw [h] at hstep
      exact hstep
  | refused h =>
      refine ⟨rfl, fun below _ hwants => readOn_of_refused ?_ below _⟩
      have hstep := step_of_step_nil (hwants rfl)
      rw [h] at hstep
      exact hstep
  | malformed h =>
      refine ⟨rfl, fun below _ hwants => readOn_of_malformed ?_ below _⟩
      have hstep := step_of_step_nil (hwants rfl)
      rw [h] at hstep
      exact hstep
  | tooDeep h hlevel =>
      refine ⟨rfl, fun below hheight _ => readOn_of_refused ?_ below _⟩
      rw [← hheight] at hlevel
      rcases h with h | h
      · exact (step_openList h below).trans (if_neg (Nat.not_lt.mpr hlevel))
      · exact (step_quote h below).trans (if_neg (Nat.not_lt.mpr hlevel))
  | list h hlevel hitems ih =>
      rcases ih with ⟨rfl, hread⟩
      refine ⟨rfl, fun below hheight _ => ?_⟩
      have hpush := Reader.descend_of_room (hheight ▸ hlevel : below.length < maxNesting)
      have hbelow := hread below (congrArg (· + 1) hheight) (fun haim => nomatch haim)
      rw [← hbelow]
      exact readOn_of_push ((step_openList h below).trans (hpush _ _)) _
  | quote h hlevel hbody ih =>
      rcases ih with ⟨rfl, hread⟩
      refine ⟨rfl, fun below hheight _ => ?_⟩
      have hpush := Reader.descend_of_room (hheight ▸ hlevel : below.length < maxNesting)
      have hbelow := hread (.quote :: below) (congrArg (· + 1) hheight) (fun _ => trivial)
      exact (readOn_of_push ((step_quote h below).trans (hpush _ _)) _).trans hbelow
  | unclosed level start read =>
      exact ⟨rfl, fun below _ _ => (resume_error length below _ _).symm⟩
  | close h =>
      exact ⟨rfl, fun below _ _ => readOn_of_place (step_closeList h _ _ below) _⟩
  | @item level next last start read token rest e answer r r' h hitem hitems ihitem ihitems =>
      rcases ihitem with ⟨rfl, hreadItem⟩
      rcases ihitems with ⟨rfl, hreadItems⟩
      refine ⟨rfl, fun below hheight _ => ?_⟩
      have hitem := hreadItem (.list start read :: below) hheight (fun _ => h)
      have hitems := hreadItems below hheight (fun haim => nomatch haim)
      exact hitem.trans hitems
  | @failed level last start read token rest error r h hitem ih =>
      rcases ih with ⟨rfl, hread⟩
      refine ⟨rfl, fun below hheight _ => ?_⟩
      have hitem := hread (.list start read :: below) hheight (fun _ => h)
      rw [resume_error] at hitem ⊢
      exact hitem

/-!
# Every reading is a descent

A descent that finds no expression has come to the end of the source.
-/

theorem Descends.eq_nil_of_none {aim : Aim} {level last : Nat} {tokens : List Token}
    {answer : Except Error (Option Expr)} {r : Reader}
    (h : Descends length aim level tokens answer last r) (hnone : answer = .ok none) :
    aim = .expression ∧ tokens = [] := by
  induction h with
  | atEnd level =>
      exact ⟨rfl, rfl⟩
  | list _ _ _ ih =>
      cases (ih hnone).1
  | @quote _ _ _ _ answer _ _ _ _ _ =>
      rcases answer with _ | _ | _
      all_goals cases hnone
  | item _ _ _ _ ih =>
      cases (ih hnone).1
  | leaf _ => cases hnone
  | refused _ => cases hnone
  | malformed _ => cases hnone
  | tooDeep _ _ => cases hnone
  | unclosed _ _ _ => cases hnone
  | close _ => cases hnone
  | failed _ _ _ => cases hnone

/-- A descent that takes a token for each expression it gives. -/
def Descended (length : Nat) (aim : Aim) (level : Nat) (tokens : List Token) : Prop :=
  ∃ answer last r, Descends length aim level tokens answer last r ∧
    ∀ e, answer = .ok (some e) → r.pending.length < tokens.length

/-!
# Induction on the tokens

The tokens that are left bound a descent, which takes a token for each
expression it gives.
-/

theorem opens_of_step_nil {token : Token} {stack : List Frame} (h : step [] token = .push stack) :
    token.lexeme = .openList ∨ token.lexeme = .quote := by
  rcases token with ⟨lexeme, start, stop⟩
  cases lexeme with
  | openList => exact .inl rfl
  | quote => exact .inr rfl
  | _ => cases h

theorem descended_expression {token : Token} {rest : List Token}
    (hexpression : ∀ level, Descended length .expression level rest)
    (hitems : ∀ level start read, Descended length (.items start read) level rest) (level : Nat) :
    Descended length .expression level (token :: rest) := by
  cases hstep : step [] token with
  | push stack =>
      have hopens := opens_of_step_nil hstep
      by_cases hlevel : level < maxNesting
      · rcases hopens with hopen | hquote
        · rcases hitems (level + 1) token.start [] with ⟨answer, last, r, hdescends, hshorter⟩
          exact ⟨answer, last - 1, r, .list hopen hlevel hdescends,
            fun e he => Nat.lt_succ_of_lt (hshorter e he)⟩
        · rcases hexpression (level + 1) with ⟨answer, last, r, hdescends, hshorter⟩
          refine ⟨_, last - 1, r, .quote hquote hlevel hdescends, ?_⟩
          intro e he
          rcases answer with _ | _ | body
          · cases he
          · cases he
          · exact Nat.lt_succ_of_lt (hshorter body rfl)
      · exact ⟨_, _, _, .tooDeep hopens (Nat.not_lt.mp hlevel), fun _ he => nomatch he⟩
  | done e => exact ⟨_, _, _, .leaf hstep, fun _ _ => Nat.lt_succ_self _⟩
  | refused error => exact ⟨_, _, _, .refused hstep, fun _ he => nomatch he⟩
  | malformed error => exact ⟨_, _, _, .malformed hstep, fun _ he => nomatch he⟩

theorem descended_items {token : Token} {rest : List Token}
    (hexpression : ∀ level, Descended length .expression level (token :: rest))
    (hitems : ∀ tokens : List Token, tokens.length < (token :: rest).length →
      ∀ level start read, Descended length (.items start read) level tokens)
    (level start : Nat) (read : List Expr) :
    Descended length (.items start read) level (token :: rest) := by
  by_cases hclose : token.lexeme = .closeList
  · exact ⟨_, _, _, .close hclose, fun _ _ => Nat.lt_succ_self _⟩
  · rcases hexpression level with ⟨answer, next, r, hitem, hshorter⟩
    rcases answer with error | _ | e
    · exact ⟨_, _, _, .failed hclose hitem, fun _ he => nomatch he⟩
    · cases (hitem.eq_nil_of_none rfl).2
    · have hless := hshorter e rfl
      rcases hitems r.pending hless next start (e :: read) with ⟨answer, last, r', hrest, hfewer⟩
      exact ⟨answer, last, r', .item hclose hitem hrest,
        fun e he => Nat.lt_trans (hfewer e he) hless⟩

theorem descended (length : Nat) (tokens : List Token) :
    (∀ level, Descended length .expression level tokens) ∧
      ∀ level start read, Descended length (.items start read) level tokens := by
  induction hlength : tokens.length using Nat.strongRecOn generalizing tokens with
  | _ n ih =>
      subst hlength
      cases tokens with
      | nil =>
          constructor
          · intro level
            exact ⟨_, _, _, .atEnd level, fun _ he => nomatch he⟩
          · intro level start read
            exact ⟨_, _, _, .unclosed level start read, fun _ he => nomatch he⟩
      | cons token rest =>
          have hrest := ih rest.length (Nat.lt_succ_self _) rest rfl
          have hexpression (level : Nat) :
              Descended length .expression level (token :: rest) :=
            descended_expression hrest.1 hrest.2 level
          constructor
          · exact hexpression
          · exact descended_items hexpression fun tokens hless => (ih _ hless tokens rfl).2

theorem descends_iff_next {r r' : Reader} {answer : Except Error (Option Expr)} {last : Nat} :
    Descends r.length .expression 0 r.pending answer last r' ↔
      last = 0 ∧ answer = r.next.1 ∧ r' = r.next.2 := by
  have hagrees {answer : Except Error (Option Expr)} {last : Nat} {r' : Reader}
      (h : Descends r.length .expression 0 r.pending answer last r') :
      last = 0 ∧ r.next = (answer, r') :=
    ⟨h.agrees.1, h.agrees.2 [] rfl fun _ => trivial⟩
  constructor
  · intro h
    rcases hagrees h with ⟨hlast, hnext⟩
    rw [hnext]
    exact ⟨hlast, rfl, rfl⟩
  · rintro ⟨rfl, rfl, rfl⟩
    rcases (descended r.length r.pending).1 0 with ⟨answer, last, r', h, _⟩
    rcases hagrees h with ⟨rfl, hnext⟩
    rw [hnext]
    exact h

/-!
# Descents in a row

Each descent finds the level as the last one has left it.
-/

/-- Descents one after the other, each of which finds the level as the last one has left it. -/
inductive DescendsRepeatedly :
    Nat → Reader → List (Except Error (Option Expr)) → Nat → Reader → Prop where
  | nil (level : Nat) (r : Reader) : DescendsRepeatedly level r [] level r
  | cons {level next last : Nat} {r r' r'' : Reader} {answer : Except Error (Option Expr)}
      {answers : List (Except Error (Option Expr))}
      (h : Descends r.length .expression level r.pending answer next r')
      (hrest : DescendsRepeatedly next r' answers last r'') :
      DescendsRepeatedly level r (answer :: answers) last r''

theorem descendsRepeatedly_iff {r r' : Reader} {answers : List (Except Error (Option Expr))}
    {last : Nat} :
    DescendsRepeatedly 0 r answers last r' ↔
      last = 0 ∧ answers = r.answers answers.length ∧ r' = r.after answers.length := by
  induction answers generalizing r with
  | nil =>
      constructor
      · intro h
        cases h
        exact ⟨rfl, rfl, rfl⟩
      · rintro ⟨rfl, _, rfl⟩
        exact .nil 0 _
  | cons answer answers ih =>
      rw [List.length_cons, Reader.answers_succ, ← Reader.after_next]
      constructor
      · intro h
        cases h with
        | cons h hrest =>
            rcases descends_iff_next.mp h with ⟨rfl, rfl, rfl⟩
            rcases ih.mp hrest with ⟨hlast, hanswers, hafter⟩
            exact ⟨hlast, congrArg _ hanswers, hafter⟩
      · rintro ⟨hlast, hanswers, hafter⟩
        rcases List.cons.inj hanswers with ⟨hanswer, hanswers⟩
        exact .cons (descends_iff_next.mpr ⟨rfl, hanswer, rfl⟩) (ih.mpr ⟨hlast, hanswers, hafter⟩)

end Source
end ScopeLisp
