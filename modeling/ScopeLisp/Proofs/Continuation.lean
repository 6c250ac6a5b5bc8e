import ScopeLisp.Proofs.Grammar

/-!
# Reading a source that goes on

## Closed and open tokens

A pass that stands at the end of a source has closed some tokens, which no text
behind the source can change.  At most one token is still open, and what follows
decides what becomes of it.

## Two kinds of errors

An error at a closed token is there for good.  Without such an error the source
can always be completed: end the comment or string that is open, add a word, and
close all lists.  The error itself shows which of the two it is.
-/

namespace ScopeLisp
namespace Source

/-!
# Reading token by token

What a reader holds between two tokens does not depend on whether the source
ends behind them.
-/

/-- What a reader holds between two tokens.  Expressions are kept latest first. -/
structure Progress where
  stack : List Frame
  read : List Expr

namespace Progress

def start : Progress := ⟨[], []⟩

def take (p : Progress) (token : Token) : Except Error Progress :=
  match step p.stack token with
  | .push stack => .ok ⟨stack, p.read⟩
  | .done e => .ok ⟨[], e :: p.read⟩
  | .refused error => .error error
  | .malformed error => .error error

def advance (p : Progress) (tokens : List Token) : Except Error Progress :=
  tokens.foldlM take p

def finish (length : Nat) (p : Progress) : Except Error (List Expr) :=
  match unfinished? length p.stack with
  | none => .ok p.read.reverse
  | some error => .error error

theorem advance_cons (p : Progress) (token : Token) (rest : List Token) :
    p.advance (token :: rest) = p.take token >>= fun q => q.advance rest := by
  rw [advance, List.foldlM_cons]
  rfl

theorem advance_append (p : Progress) (first second : List Token) :
    p.advance (first ++ second) = p.advance first >>= fun q => q.advance second := by
  rw [advance, List.foldlM_append]
  rfl

end Progress

theorem readAll_eq_advance (length : Nat) (p : Progress) (tokens : List Token) :
    readAll length p.stack p.read tokens = p.advance tokens >>= Progress.finish length := by
  induction tokens generalizing p with
  | nil =>
      rw [readAll]
      rfl
  | cons token tokens ih =>
      rw [readAll, Progress.advance_cons, Progress.take]
      cases step p.stack token with
      | push stack => exact ih ⟨stack, p.read⟩
      | done e => exact ih ⟨[], e :: p.read⟩
      | refused error => rfl
      | malformed error => rfl

theorem parseProgram_eq_advance (source : List Char) :
    parseProgram source =
      Progress.start.advance (tokens source) >>= Progress.finish (Text.byteLength source) :=
  readAll_eq_advance (Text.byteLength source) .start (tokens source)

/-!
# Closed tokens

The tokens of a longer source begin with those that are closed at the end of a
shorter one.
-/

def closedTokens (source : List Char) : List Token :=
  (Scan.initial.run source).tokens.reverse

def lastMode (source : List Char) : ScanMode :=
  (Scan.initial.run source).mode

theorem tokens_append (source more : List Char) :
    tokens (source ++ more) = closedTokens source ++
      (Scan.run ⟨Text.byteLength source, lastMode source, []⟩ more).finish := by
  have hoffset : (Scan.initial.run source).offset = Text.byteLength source := by
    rw [Scan.offset_run]
    exact Nat.zero_add _
  rw [tokens, Scan.run_append, ← hoffset]
  exact Scan.finish_run _ _ _ more

theorem tokens_eq_closedTokens (source : List Char) :
    tokens source = closedTokens source ++
      (Scan.finish ⟨Text.byteLength source, lastMode source, []⟩) := by
  have hnothing := tokens_append source []
  rw [List.append_nil] at hnothing
  exact hnothing

/-!
# Words that are no numbers

A word that is no number is closed in front of the character that ends it, so
it stops before the end of the source.
-/

theorem badNumber_mem_enter {s : Scan} {c : Char} {token : Token} {word : String}
    (h : token ∈ (s.enter c).tokens) (hword : token.lexeme = .badNumber word) :
    token ∈ s.tokens := by
  unfold Scan.enter Scan.alone at h
  repeat' split at h
  all_goals
    first
    | exact h
    | rcases List.mem_cons.mp h with rfl | hold
      · cases hword
      · exact hold

/-- A word that is no number is closed in front of the character that ends it. -/
theorem badNumber_mem_step {s : Scan} {c : Char} {token : Token} {word : String}
    (h : token ∈ (s.step c).tokens) (hword : token.lexeme = .badNumber word) :
    token ∈ s.tokens ∨ token.stop = s.offset := by
  rcases s with ⟨offset, mode, tokens⟩
  cases mode with
  | between =>
      exact .inl (badNumber_mem_enter h hword)
  | comment =>
      simp only [Scan.step] at h
      split at h <;> exact .inl h
  | word start read =>
      simp only [Scan.step] at h
      split at h
      · rcases List.mem_cons.mp (badNumber_mem_enter h hword) with rfl | hold
        · exact .inr rfl
        · exact .inl hold
      · exact .inl h
  | text start read =>
      simp only [Scan.step] at h
      repeat' split at h
      · rcases List.mem_cons.mp h with rfl | hold
        · cases hword
        · exact .inl hold
      · exact .inl h
      · exact .inl h
  | escape start read =>
      simp only [Scan.step] at h
      split at h
      · exact .inl h
      · rcases List.mem_cons.mp h with rfl | hold
        · cases hword
        · exact .inl hold

theorem badNumber_stop_lt_run (s : Scan)
    (hs : ∀ token ∈ s.tokens, ∀ word, token.lexeme = .badNumber word → token.stop < s.offset)
    (text : List Char) :
    ∀ token ∈ (s.run text).tokens, ∀ word, token.lexeme = .badNumber word →
      token.stop < (s.run text).offset := by
  induction text generalizing s with
  | nil =>
      exact hs
  | cons c text ih =>
      apply ih (s.step c)
      intro token htoken word hword
      have hsize := Char.utf8Size_pos c
      rw [Scan.offset_step]
      rcases badNumber_mem_step htoken hword with hold | hstop
      · have hlt := hs token hold word hword
        omega
      · omega

theorem badNumber_stop_lt {source : List Char} {token : Token} (h : token ∈ closedTokens source)
    {word : String} (hword : token.lexeme = .badNumber word) :
    token.stop < Text.byteLength source := by
  have hlt := badNumber_stop_lt_run .initial (by simp [Scan.initial]) source token
    (List.mem_reverse.mp h) word hword
  rw [Scan.offset_run] at hlt
  simpa [Scan.initial] using hlt

/-!
# Errors for good

An error that more text could mend is a list or quote that is still open, or a
word of digits and dots that the source ends with.
-/

/-- Whether an error in a source of `length` bytes says that the source is not complete. -/
def Error.isIncomplete (length : Nat) (error : Error) : Bool :=
  match error.cause with
  | .unclosedList => true
  | .unexpectedEnd => true
  | .invalidNumber _ => error.span.stop == length
  | _ => false

theorem isIncomplete_of_finish {length : Nat} {p : Progress} {error : Error}
    (h : p.finish length = .error error) : error.isIncomplete length = true := by
  rcases p with ⟨stack, read⟩
  cases stack with
  | nil =>
      cases h
  | cons frame below =>
      cases frame with
      | quote =>
          cases h
          rfl
      | list start items =>
          cases h
          rfl

def Step.error? : Step → Option Error
  | .refused error => some error
  | .malformed error => some error
  | _ => none

theorem error?_place (e : Expr) (stack : List Frame) : (place e stack).error? = none := by
  induction stack generalizing e with
  | nil =>
      rfl
  | cons frame below ih =>
      cases frame with
      | quote => exact ih (.quoted e)
      | list start items => rfl

theorem error?_step_of_take {p : Progress} {token : Token} {error : Error}
    (h : p.take token = .error error) : (step p.stack token).error? = some error := by
  unfold Progress.take at h
  cases hstep : step p.stack token with
  | push stack =>
      rw [hstep] at h
      cases h
  | done e =>
      rw [hstep] at h
      cases h
  | refused error' =>
      rw [hstep] at h
      cases h
      rfl
  | malformed error' =>
      rw [hstep] at h
      cases h
      rfl

theorem badNumber_of_isIncomplete {stack : List Frame} {token : Token} {error : Error}
    (h : (step stack token).error? = some error) {length : Nat}
    (hincomplete : error.isIncomplete length = true) :
    (∃ word, token.lexeme = .badNumber word) ∧ min token.stop Span.maxOffset = length := by
  rcases token with ⟨lexeme, start, stop⟩
  cases lexeme with
  | openList =>
      simp only [step, descend] at h
      split at h
      · cases h
      · cases h
        cases hincomplete
  | quote =>
      simp only [step, descend] at h
      split at h
      · cases h
      · cases h
        cases hincomplete
  | closeList =>
      simp only [step] at h
      split at h
      · rw [error?_place] at h
        cases h
      · cases h
        cases hincomplete
  | hash =>
      cases h
      cases hincomplete
  | atom name =>
      rw [show step stack _ = place (.atom name) stack from rfl, error?_place] at h
      cases h
  | str text =>
      rw [show step stack _ = place (.str text) stack from rfl, error?_place] at h
      cases h
  | num value =>
      rw [show step stack _ = place (.num value) stack from rfl, error?_place] at h
      cases h
  | badEscape offset c =>
      cases h
      cases hincomplete
  | badNumber word =>
      cases h
      exact ⟨⟨word, rfl⟩, beq_iff_eq.mp hincomplete⟩

theorem error?_step_of_advance {p : Progress} {tokens : List Token} {error : Error}
    (h : p.advance tokens = .error error) :
    ∃ token ∈ tokens, ∃ stack, (step stack token).error? = some error := by
  induction tokens generalizing p with
  | nil =>
      cases h
  | cons token tokens ih =>
      rw [Progress.advance_cons] at h
      cases htake : p.take token with
      | error error' =>
          rw [htake] at h
          cases h
          exact ⟨token, List.mem_cons_self, p.stack, error?_step_of_take htake⟩
      | ok q =>
          rw [htake] at h
          rcases ih h with ⟨later, hlater, hstep⟩
          exact ⟨later, List.mem_cons_of_mem token hlater, hstep⟩

theorem not_isIncomplete_of_closedTokens {source : List Char} {error : Error}
    (h : Progress.start.advance (closedTokens source) = .error error) :
    error.isIncomplete (Text.byteLength source) = false := by
  rcases error?_step_of_advance h with ⟨token, htoken, stack, hstep⟩
  apply Bool.eq_false_iff.mpr
  intro hincomplete
  rcases badNumber_of_isIncomplete hstep hincomplete with ⟨⟨word, hword⟩, hstop⟩
  have hlt := badNumber_stop_lt htoken hword
  omega

/-!
# Completing a source

As many closing brackets as lists are open complete all of them, unless a quote
still waits for its expression.
-/

def openLists : List Frame → Nat
  | [] => 0
  | .quote :: below => openLists below
  | .list _ _ :: below => openLists below + 1

/-- A reader that is not right behind a quote. -/
def Settled (stack : List Frame) : Prop :=
  ∀ below, stack ≠ .quote :: below

theorem place_settled (e : Expr) (stack : List Frame) :
    (openLists stack = 0 ∧ ∃ e', place e stack = .done e') ∨
      ∃ stack', place e stack = .push stack' ∧ Settled stack' ∧
        openLists stack' = openLists stack := by
  induction stack generalizing e with
  | nil =>
      exact .inl ⟨rfl, e, rfl⟩
  | cons frame below ih =>
      cases frame with
      | quote => exact ih (.quoted e)
      | list start items => exact .inr ⟨_, rfl, by simp [Settled], rfl⟩

theorem take_of_place {p : Progress} {token : Token} {e : Expr} {below : List Frame}
    (h : step p.stack token = place e below) :
    ∃ q, p.take token = .ok q ∧ Settled q.stack ∧ openLists q.stack = openLists below := by
  rcases place_settled e below with ⟨hnone, e', hplace⟩ | ⟨stack, hplace, hsettled, hcount⟩
  · refine ⟨⟨[], e' :: p.read⟩, ?_, by simp [Settled], hnone.symm⟩
    rw [Progress.take, h, hplace]
  · refine ⟨⟨stack, p.read⟩, ?_, hsettled, hcount⟩
    rw [Progress.take, h, hplace]

def Lexeme.isLeaf : Lexeme → Bool
  | .atom _ => true
  | .str _ => true
  | .num _ => true
  | _ => false

theorem step_of_isLeaf {token : Token} (h : token.lexeme.isLeaf = true) (stack : List Frame) :
    ∃ e, step stack token = place e stack := by
  rcases token with ⟨lexeme, start, stop⟩
  cases lexeme with
  | atom name => exact ⟨.atom name, rfl⟩
  | str text => exact ⟨.str text, rfl⟩
  | num value => exact ⟨.num value, rfl⟩
  | _ => cases h

theorem advance_leaves {leaves : List Token} (hne : leaves ≠ [])
    (hleaves : ∀ token ∈ leaves, token.lexeme.isLeaf = true) (p : Progress) :
    ∃ q, p.advance leaves = .ok q ∧ Settled q.stack ∧ openLists q.stack = openLists p.stack := by
  induction leaves generalizing p with
  | nil =>
      exact absurd rfl hne
  | cons token rest ih =>
      rcases List.forall_mem_cons.mp hleaves with ⟨hleaf, hrest⟩
      rcases step_of_isLeaf hleaf p.stack with ⟨e, hstep⟩
      rcases take_of_place hstep with ⟨q, htake, hsettled, hcount⟩
      rw [Progress.advance_cons, htake]
      cases rest with
      | nil =>
          exact ⟨q, rfl, hsettled, hcount⟩
      | cons next rest =>
          rcases ih (List.cons_ne_nil _ _) hrest q with ⟨last, hlast, hsettled', hcount'⟩
          exact ⟨last, hlast, hsettled', hcount'.trans hcount⟩

theorem advance_closing {tokens : List Token} {p : Progress} (hsettled : Settled p.stack)
    (htokens : tokens.map Token.lexeme = List.replicate (openLists p.stack) .closeList) :
    ∃ read, p.advance tokens = .ok ⟨[], read⟩ := by
  induction tokens generalizing p with
  | nil =>
      rcases p with ⟨stack, read⟩
      cases stack with
      | nil =>
          exact ⟨read, rfl⟩
      | cons frame below =>
          cases frame with
          | quote => exact absurd rfl (hsettled below)
          | list start items => cases htokens
  | cons token rest ih =>
      rcases p with ⟨stack, read⟩
      cases stack with
      | nil =>
          cases htokens
      | cons frame below =>
          cases frame with
          | quote =>
              exact absurd rfl (hsettled below)
          | list start items =>
              rcases List.cons_eq_cons.mp htokens with ⟨hclose, hrest⟩
              have hstep : step (.list start items :: below) token =
                  place (.list items.reverse) below := by
                rw [step, hclose]
              rcases take_of_place (p := ⟨.list start items :: below, read⟩) hstep with
                ⟨q, htake, hsettled', hcount⟩
              rw [Progress.advance_cons, htake]
              rw [← hcount] at hrest
              exact ih hsettled' hrest

/-- What ends the comment or string that is open. -/
def ScanMode.ending : ScanMode → List Char
  | .comment => ['\n']
  | .text _ _ => ['"']
  | .escape _ _ => ['"', '"']
  | _ => []

theorem ofWord_append_x (word : List Char) :
    Lexeme.ofWord (word ++ ['x']) = .atom (String.ofList (word ++ ['x'])) := by
  have hall : (word ++ ['x']).all isNumeric = false := by
    rw [List.all_append]
    exact Bool.and_false _
  rw [Lexeme.ofWord, hall]
  rfl

/-!
# Text behind a source

A word behind what ends the open comment or string gives expressions, and
nothing stays open.
-/

theorem isDelimiter_x : ∀ c ∈ ['x'], isDelimiter c = false := by
  intro c hc
  cases List.mem_singleton.mp hc
  rfl

theorem tokensFrom_x (offset : Nat) {rest : List Char} (hrest : EndsWord rest) :
    tokensFrom offset ('x' :: rest) =
      ⟨.atom "x", offset, offset + 1⟩ :: tokensFrom (offset + 1) rest := by
  have hword : tokensFrom offset (['x'] ++ rest) = _ :=
    tokensFrom_word (List.cons_ne_nil _ _) isDelimiter_x hrest offset
  rw [show Lexeme.ofWord ['x'] = _ from ofWord_append_x []] at hword
  exact hword

theorem finish_run_ending (offset : Nat) (mode : ScanMode) {rest : List Char}
    (hrest : EndsWord rest) :
    ∃ leaves next, leaves ≠ [] ∧ (∀ token ∈ leaves, token.lexeme.isLeaf = true) ∧
      (Scan.run ⟨offset, mode, []⟩ (mode.ending ++ 'x' :: rest)).finish =
        leaves ++ tokensFrom next rest := by
  cases mode with
  | between =>
      exact ⟨[_], _, List.cons_ne_nil _ _, by simp [Lexeme.isLeaf], tokensFrom_x offset hrest⟩
  | comment =>
      exact ⟨[_], _, List.cons_ne_nil _ _, by simp [Lexeme.isLeaf], tokensFrom_x (offset + 1) hrest⟩
  | word start read =>
      have hword := finish_run_word hrest start ['x'] isDelimiter_x offset read
      rw [ofWord_append_x] at hword
      exact ⟨[_], _, List.cons_ne_nil _ _, by simp [Lexeme.isLeaf], hword⟩
  | text start read =>
      have hclosed : (Scan.run ⟨offset, .text start read, []⟩ ('"' :: 'x' :: rest)).finish =
          [⟨.str (String.ofList read.reverse), start, offset + 1⟩] ++
            tokensFrom (offset + 1) ('x' :: rest) :=
        Scan.finish_run (offset + 1) .between [_] ('x' :: rest)
      rw [tokensFrom_x _ hrest] at hclosed
      exact ⟨[_, _], _, List.cons_ne_nil _ _, by simp [Lexeme.isLeaf], hclosed⟩
  | escape start read =>
      have hclosed :
          (Scan.run ⟨offset, .escape start read, []⟩ ('"' :: '"' :: 'x' :: rest)).finish =
          [⟨.str (String.ofList ('"' :: read).reverse), start, offset + 1 + 1⟩] ++
            tokensFrom (offset + 1 + 1) ('x' :: rest) :=
        Scan.finish_run (offset + 1 + 1) .between [_] ('x' :: rest)
      rw [tokensFrom_x _ hrest] at hclosed
      exact ⟨[_, _], _, List.cons_ne_nil _ _, by simp [Lexeme.isLeaf], hclosed⟩

theorem lexemes_closing (offset count : Nat) :
    (tokensFrom offset (List.replicate count ')')).map Token.lexeme =
      List.replicate count .closeList := by
  induction count generalizing offset with
  | zero =>
      rfl
  | succ count ih =>
      rw [List.replicate_succ, tokensFrom_alone rfl, List.map_cons, ih, List.replicate_succ]

theorem endsWord_closing (count : Nat) : EndsWord (List.replicate count ')') := by
  intro c hc
  have heq : c = ')' := List.eq_of_mem_replicate (List.mem_of_mem_head? hc)
  subst heq
  decide

/-- A source without an error at a closed token can be completed. -/
theorem exists_parseProgram_append {source : List Char} {p : Progress}
    (h : Progress.start.advance (closedTokens source) = .ok p) :
    ∃ more es, parseProgram (source ++ more) = .ok es := by
  let closing := List.replicate (openLists p.stack) ')'
  rcases finish_run_ending (Text.byteLength source) (lastMode source)
    (endsWord_closing (openLists p.stack)) with ⟨leaves, next, hne, hleaves, hfinish⟩
  rcases advance_leaves hne hleaves p with ⟨q, hq, hsettled, hcount⟩
  have hclosing := lexemes_closing next (openLists p.stack)
  rw [← hcount] at hclosing
  rcases advance_closing hsettled hclosing with ⟨read, hread⟩
  refine ⟨(lastMode source).ending ++ 'x' :: closing, read.reverse, ?_⟩
  rw [parseProgram_eq_advance, tokens_append, hfinish, Progress.advance_append, h]
  show p.advance (leaves ++ _) >>= _ = _
  rw [Progress.advance_append, hq, ← hcount]
  show q.advance _ >>= _ = _
  rw [hread]
  rfl

/-!
# What an error says about continuations

An error behind the closed tokens of a source says that the source is
incomplete.
-/

theorem ofWord_isLeaf_or_badNumber (word : List Char) :
    (Lexeme.ofWord word).isLeaf = true ∨
      Lexeme.ofWord word = .badNumber (String.ofList word) := by
  unfold Lexeme.ofWord
  repeat' split
  · exact .inl rfl
  · exact .inr rfl
  · exact .inl rfl

theorem isIncomplete_of_open {length : Nat} (hlength : length ≤ Span.maxOffset) {mode : ScanMode}
    {p : Progress} {error : Error}
    (h : p.advance (Scan.finish ⟨length, mode, []⟩) >>= Progress.finish length = .error error) :
    error.isIncomplete length = true := by
  have hleaf : ∀ token : Token, token.lexeme.isLeaf = true →
      p.advance [token] >>= Progress.finish length = .error error →
        error.isIncomplete length = true := by
    intro token htoken h
    rcases advance_leaves (List.cons_ne_nil token []) (by simpa using htoken) p with ⟨q, hq, _⟩
    rw [hq] at h
    exact isIncomplete_of_finish h
  cases mode with
  | between =>
      exact isIncomplete_of_finish h
  | comment =>
      exact isIncomplete_of_finish h
  | text start read =>
      exact hleaf _ rfl h
  | escape start read =>
      exact hleaf _ rfl h
  | word start read =>
      rcases ofWord_isLeaf_or_badNumber read.reverse with hword | hword
      · exact hleaf _ hword h
      · have hfinish : Scan.finish ⟨length, .word start read, []⟩ =
            [⟨.badNumber (String.ofList read.reverse), start, length⟩] := by
          rw [← hword]
          rfl
        rw [hfinish] at h
        cases h
        exact beq_iff_eq.mpr (Nat.min_eq_left hlength)

/--
The error of a program tells incomplete from malformed sources.  Where it says
that the source is incomplete, some continuation makes a program of it.  Any
other error stays the same, whatever comes behind the source.
-/
theorem error_decides_continuations {source : List Char} {error : Error}
    (hlength : Text.byteLength source ≤ Span.maxOffset)
    (herror : parseProgram source = .error error) :
    (error.isIncomplete (Text.byteLength source) = true →
      ∃ more es, parseProgram (source ++ more) = .ok es) ∧
    (error.isIncomplete (Text.byteLength source) = false →
      ∀ more, parseProgram (source ++ more) = .error error) := by
  have hparse := herror
  rw [parseProgram_eq_advance, tokens_eq_closedTokens, Progress.advance_append] at hparse
  cases hclosed : Progress.start.advance (closedTokens source) with
  | ok p =>
      rw [hclosed] at hparse
      have hincomplete := isIncomplete_of_open hlength hparse
      constructor
      · intro _
        exact exists_parseProgram_append hclosed
      · intro hcomplete
        rw [hincomplete] at hcomplete
        cases hcomplete
  | error error' =>
      rw [hclosed] at hparse
      cases hparse
      have hcomplete := not_isIncomplete_of_closedTokens hclosed
      constructor
      · intro hincomplete
        rw [hcomplete] at hincomplete
        cases hincomplete
      · intro _ more
        rw [parseProgram_eq_advance, tokens_append, Progress.advance_append, hclosed]
        rfl

/-- A list in a quote in a list, with a string that ends behind a backslash. -/
def danglingText : List Char := ['(', '\'', '(', 'a', ' ', '"', 'b', '\\']

/-- An open list that ends with a word of digits and dots. -/
def twoDots : List Char := ['(', '1', '.', '2', '.', '3']

theorem error_decides_continuations_twoDots :
    (parseProgram danglingText = .error ⟨.unclosedList, ⟨2, 8⟩⟩ ∧
      ∃ more es, parseProgram (danglingText ++ more) = .ok es) ∧
    (parseProgram twoDots = .error ⟨.invalidNumber "1.2.3", ⟨1, 6⟩⟩ ∧
      ∃ more es, parseProgram (twoDots ++ more) = .ok es) ∧
    parseProgram (twoDots ++ [' ']) = .error ⟨.invalidNumber "1.2.3", ⟨1, 6⟩⟩ ∧
      ∀ more, parseProgram (twoDots ++ [' '] ++ more) =
        .error ⟨.invalidNumber "1.2.3", ⟨1, 6⟩⟩ := by
  have hdangling : parseProgram danglingText = .error ⟨.unclosedList, ⟨2, 8⟩⟩ := rfl
  have hopen : parseProgram twoDots = .error ⟨.invalidNumber "1.2.3", ⟨1, 6⟩⟩ := rfl
  have hclosed : parseProgram (twoDots ++ [' ']) = .error ⟨.invalidNumber "1.2.3", ⟨1, 6⟩⟩ := rfl
  exact ⟨⟨hdangling, (error_decides_continuations (by decide) hdangling).1 rfl⟩,
    ⟨hopen, (error_decides_continuations (by decide) hopen).1 rfl⟩,
    hclosed, (error_decides_continuations (by decide) hclosed).2 rfl⟩

end Source
end ScopeLisp
