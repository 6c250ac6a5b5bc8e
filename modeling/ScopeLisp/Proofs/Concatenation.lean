import ScopeLisp.Proofs.Continuation
import ScopeLisp.Proofs.ErrorSpans

/-!
# Programs one after the other

## Moving a source

A source that stands behind other text is cut into the same tokens, further on
by the length of that text.  A reader that meets them does the same as in front
of the source alone, so its result is the same up to offsets.

## Joining two programs

A line break behind a program ends whatever the program leaves open, unless that
is a string.  What follows is then read as a program of its own.
-/

namespace ScopeLisp

namespace Span

/-!
# Spans and errors further on

A span is moved exactly as long as its offsets can be held.
-/

def shift (n : Nat) (s : Span) : Span :=
  .ofRange (n + s.start) (n + s.stop)

theorem shift_ofRange (n start stop : Nat) :
    (ofRange start stop).shift n = ofRange (n + start) (n + stop) := by
  simp only [shift, ofRange, Span.mk.injEq]
  constructor <;> omega

end Span

namespace Source

def Error.shift (n : Nat) (error : Error) : Error :=
  ⟨error.cause, error.span.shift n⟩

def moved {α β : Type} (n : Nat) (f : α → β) : Except Error α → Except Error β
  | .ok a => .ok (f a)
  | .error error => .error (error.shift n)

theorem moved_bind {α β γ δ : Type} {n : Nat} {f : α → γ} {g : β → δ} {next : α → Except Error β}
    {next' : γ → Except Error δ} (h : ∀ a, next' (f a) = moved n g (next a))
    (x : Except Error α) : (moved n f x >>= next') = moved n g (x >>= next) := by
  cases x with
  | ok a => exact h a
  | error error => rfl

/-!
# Tokens further on

The tokens of a text are the same wherever it starts, up to their offsets.
Behind a backslash the offset is not zero, so the offset of the backslash is
moved as well.
-/

def Lexeme.shift (n : Nat) : Lexeme → Lexeme
  | .badEscape offset c => .badEscape (n + offset) c
  | lexeme => lexeme

def Token.shift (n : Nat) (token : Token) : Token :=
  ⟨token.lexeme.shift n, n + token.start, n + token.stop⟩

def ScanMode.shift (n : Nat) : ScanMode → ScanMode
  | .between => .between
  | .comment => .comment
  | .word start read => .word (n + start) read
  | .text start read => .text (n + start) read
  | .escape start read => .escape (n + start) read

theorem shift_ofWord (n : Nat) (word : List Char) :
    (Lexeme.ofWord word).shift n = Lexeme.ofWord word := by
  unfold Lexeme.ofWord
  repeat' split
  all_goals rfl

namespace Scan

def shift (n : Nat) (s : Scan) : Scan :=
  ⟨n + s.offset, s.mode.shift n, s.tokens.map (Token.shift n)⟩

theorem closing_shift (n : Nat) (s : Scan) :
    (s.shift n).closing = s.closing.map (Token.shift n) := by
  rcases s with ⟨offset, mode, tokens⟩
  cases mode with
  | word start read => simp [shift, closing, ScanMode.shift, Token.shift, shift_ofWord]
  | _ => rfl

theorem finish_shift (n : Nat) (s : Scan) : (s.shift n).finish = s.finish.map (Token.shift n) := by
  rw [finish, finish, closing_shift, List.map_reverse, List.map_append]
  rfl

theorem enter_shift (n : Nat) (s : Scan) (c : Char) :
    (s.shift n).enter c = (s.enter c).shift n := by
  simp only [enter, alone, shift]
  repeat' split
  all_goals simp [ScanMode.shift, Token.shift, Lexeme.shift, Nat.add_assoc]

theorem step_shift (n : Nat) {s : Scan}
    (hescape : ∀ start read, s.mode = .escape start read → 0 < s.offset) (c : Char) :
    (s.shift n).step c = (s.step c).shift n := by
  rcases s with ⟨offset, mode, tokens⟩
  cases mode with
  | between =>
      exact enter_shift n ⟨offset, .between, tokens⟩ c
  | comment =>
      by_cases hc : c = '\n' <;> simp [step, shift, ScanMode.shift, hc, Nat.add_assoc]
  | word start read =>
      by_cases hc : isDelimiter c = true
      · have hclosed := enter_shift n
          ⟨offset, .between, closing ⟨offset, .word start read, tokens⟩ ++ tokens⟩ c
        simp only [step, hc, if_true]
        rw [← hclosed, closing_shift]
        simp [shift, ScanMode.shift]
      · simp [step, shift, ScanMode.shift, hc, Nat.add_assoc]
  | text start read =>
      by_cases hquote : c = '"'
      · simp [step, shift, ScanMode.shift, hquote, Token.shift, Lexeme.shift, Nat.add_assoc]
      · by_cases hslash : c = '\\' <;>
          simp [step, shift, ScanMode.shift, hquote, hslash, Nat.add_assoc]
  | escape start read =>
      have hpos : 0 < offset := hescape start read rfl
      have hslash : n + offset - 1 = n + (offset - 1) := by
        omega
      by_cases hquote : c = '"' <;>
        simp [step, shift, ScanMode.shift, hquote, Token.shift, Lexeme.shift, Nat.add_assoc, hslash]

theorem run_shift (n : Nat) {s : Scan}
    (hescape : ∀ start read, s.mode = .escape start read → 0 < s.offset) (text : List Char) :
    (s.shift n).run text = (s.run text).shift n := by
  induction text generalizing s with
  | nil =>
      rfl
  | cons c text ih =>
      show ((s.shift n).step c).run text = ((s.step c).run text).shift n
      rw [step_shift n hescape, ih]
      intro start read _
      rw [offset_step]
      exact Nat.lt_of_lt_of_le (Char.utf8Size_pos c) (Nat.le_add_left ..)

end Scan

/-- The tokens of a text are the same wherever it starts, up to their offsets. -/
theorem tokensFrom_shift (n : Nat) (text : List Char) :
    tokensFrom n text = (tokens text).map (Token.shift n) := by
  have hstart : (Scan.initial.shift n).run text = (Scan.initial.run text).shift n :=
    Scan.run_shift n (by simp [Scan.initial]) text
  rw [tokens, ← Scan.finish_shift, ← hstart]
  rfl

/-!
# Readers further on

A reader that is further on may have read some expressions before.  It takes
each token as a reader in front of the source does.
-/

def Frame.shift (n : Nat) : Frame → Frame
  | .list start items => .list (n + start) items
  | .quote => .quote

def Step.shift (n : Nat) : Step → Step
  | .push stack => .push (stack.map (Frame.shift n))
  | .done e => .done e
  | .refused error => .refused (error.shift n)
  | .malformed error => .malformed (error.shift n)

theorem place_shift (n : Nat) (e : Expr) (stack : List Frame) :
    place e (stack.map (Frame.shift n)) = (place e stack).shift n := by
  induction stack generalizing e with
  | nil =>
      rfl
  | cons frame below ih =>
      cases frame with
      | quote => exact ih (.quoted e)
      | list start items => rfl

theorem descend_shift (n : Nat) (token : Token) (frame : Frame) (stack : List Frame) :
    descend (token.shift n) (frame.shift n) (stack.map (Frame.shift n)) =
      (descend token frame stack).shift n := by
  unfold descend
  rw [List.length_map]
  split
  · rfl
  · rw [Step.shift, Error.shift, Span.shift_ofRange]
    rfl

theorem step_shift (n : Nat) (stack : List Frame) (token : Token) :
    step (stack.map (Frame.shift n)) (token.shift n) = (step stack token).shift n := by
  rcases token with ⟨lexeme, start, stop⟩
  cases lexeme with
  | openList =>
      exact descend_shift n ⟨.openList, start, stop⟩ (.list start []) stack
  | quote =>
      exact descend_shift n ⟨.quote, start, stop⟩ .quote stack
  | closeList =>
      cases stack with
      | nil =>
          simp [step, Token.shift, Lexeme.shift, Step.shift, Error.shift, Span.shift_ofRange]
      | cons frame below =>
          cases frame with
          | quote =>
              simp [step, Frame.shift, Token.shift, Lexeme.shift, Step.shift, Error.shift,
                Span.shift_ofRange]
          | list first items =>
              exact place_shift n (.list items.reverse) below
  | atom name =>
      exact place_shift n (.atom name) stack
  | str text =>
      exact place_shift n (.str text) stack
  | num value =>
      exact place_shift n (.num value) stack
  | _ =>
      simp [step, Token.shift, Lexeme.shift, Step.shift, Error.shift, Span.shift_ofRange]

namespace Progress

/-- A reader that is further on and has read some expressions before, latest first. -/
def behind (n : Nat) (earlier : List Expr) (p : Progress) : Progress :=
  ⟨p.stack.map (Frame.shift n), p.read ++ earlier⟩

theorem take_behind (n : Nat) (earlier : List Expr) (p : Progress) (token : Token) :
    (p.behind n earlier).take (token.shift n) = moved n (behind n earlier) (p.take token) := by
  rw [take, take, behind, step_shift]
  cases step p.stack token <;> rfl

theorem advance_behind (n : Nat) (earlier : List Expr) (p : Progress) (tokens : List Token) :
    (p.behind n earlier).advance (tokens.map (Token.shift n)) =
      moved n (behind n earlier) (p.advance tokens) := by
  induction tokens generalizing p with
  | nil =>
      rfl
  | cons token tokens ih =>
      rw [List.map_cons, advance_cons, advance_cons, take_behind]
      exact moved_bind ih (p.take token)

theorem finish_behind (n : Nat) (earlier : List Expr) (length : Nat) (p : Progress) :
    (p.behind n earlier).finish (n + length) =
      moved n (earlier.reverse ++ ·) (p.finish length) := by
  rcases p with ⟨stack, read⟩
  cases stack with
  | nil =>
      simp [behind, finish, unfinished?, moved]
  | cons frame below =>
      cases frame <;>
        simp [behind, finish, unfinished?, moved, Frame.shift, Error.shift, Span.shift_ofRange]

end Progress

/-!
# A line break between two programs

A line break ends an open word or comment.  Inside a string it is a character
like any other.
-/

def ScanMode.inString : ScanMode → Bool
  | .text _ _ => true
  | .escape _ _ => true
  | _ => false

theorem finish_run_newline (offset : Nat) {mode : ScanMode} (hmode : mode.inString = false)
    (rest : List Char) :
    (Scan.run ⟨offset, mode, []⟩ ('\n' :: rest)).finish =
      Scan.finish ⟨offset, mode, []⟩ ++ tokensFrom (offset + 1) rest := by
  cases mode with
  | between =>
      exact tokensFrom_blank (by decide) offset rest
  | comment =>
      rfl
  | word start read =>
      have hends : EndsWord ('\n' :: rest) := by
        intro c hc
        cases hc
        decide
      have hword := finish_run_word hends start [] (by simp) offset read
      rw [tokensFrom_blank (by decide), List.append_nil] at hword
      exact hword
  | text start read =>
      cases hmode
  | escape start read =>
      cases hmode

theorem tokens_newline {first : List Char} (hmode : (lastMode first).inString = false)
    (second : List Char) :
    tokens (first ++ '\n' :: second) =
      tokens first ++ (tokens second).map (Token.shift (Text.byteLength first + 1)) := by
  rw [tokens_append, finish_run_newline _ hmode, tokens_eq_closedTokens first,
    tokensFrom_shift, List.append_assoc]

/-!
# Reading on behind a program

A program leaves nothing open, so the tokens behind its own are read as they
are alone.
-/

theorem lexemes_of_parseProgram {source : List Char} {es : List Expr}
    (h : parseProgram source = .ok es) :
    (tokens source).map Token.lexeme = Expr.lexemesAll es := by
  have hnothing : Fits [] := trivial
  rcases readAll_reads hnothing h with ⟨later, hes, htokens, _⟩
  cases hes
  exact htokens

/-- A program that a line break does not change has no open string at its end. -/
theorem inString_lastMode {source : List Char} {es : List Expr}
    (hparse : parseProgram source = .ok es) (hnewline : parseProgram (source ++ ['\n']) = .ok es) :
    (lastMode source).inString = false := by
  have hlexemes := lexemes_of_parseProgram hparse
  have hlexemes' := lexemes_of_parseProgram hnewline
  rw [tokens_eq_closedTokens] at hlexemes
  rw [tokens_append] at hlexemes'
  generalize lastMode source = mode at hlexemes hlexemes'
  cases mode with
  | between =>
      rfl
  | comment =>
      rfl
  | word start read =>
      rfl
  | text start read =>
      have hsame := hlexemes.trans hlexemes'.symm
      rw [List.map_append, List.map_append, List.append_cancel_left_eq] at hsame
      have htext : Lexeme.str (String.ofList read.reverse) =
          .str (String.ofList ('\n' :: read).reverse) :=
        (List.cons_eq_cons.mp hsame).1
      have hlength := congrArg List.length (String.ofList_injective (Lexeme.str.inj htext))
      simp at hlength
  | escape start read =>
      have hbad : Lexeme.badEscape (Text.byteLength source - 1) '\n' ∈ Expr.lexemesAll es := by
        rw [← hlexemes']
        simp [Scan.run, Scan.step, Scan.finish, Scan.closing]
      cases Expr.isSound_of_mem_lexemesAll es _ hbad

theorem Progress.eq_behind_start {p : Progress} {length : Nat} {es : List Expr}
    (h : p.finish length = .ok es) (n : Nat) : p = Progress.start.behind n es.reverse := by
  rcases p with ⟨stack, read⟩
  cases stack with
  | nil =>
      cases h
      simp [behind, start]
  | cons frame below =>
      cases frame with
      | quote => cases h
      | list start items => cases h

theorem parseProgram_of_tokens {first second whole : List Char} {es : List Expr} {n : Nat}
    (hparse : parseProgram first = .ok es)
    (hlength : Text.byteLength whole = n + Text.byteLength second)
    (htokens : tokens whole = tokens first ++ (tokens second).map (Token.shift n)) :
    parseProgram whole = moved n (es ++ ·) (parseProgram second) := by
  rw [parseProgram_eq_advance] at hparse
  rw [parseProgram_eq_advance, parseProgram_eq_advance, htokens, Progress.advance_append, hlength]
  cases hfirst : Progress.start.advance (tokens first) with
  | error error =>
      rw [hfirst] at hparse
      cases hparse
  | ok p =>
      rw [hfirst] at hparse
      rw [Progress.eq_behind_start hparse n]
      show Progress.advance _ _ >>= _ = _
      rw [Progress.advance_behind]
      apply moved_bind
      intro q
      rw [Progress.finish_behind, List.reverse_reverse]

theorem parseProgram_newline {first : List Char} {es : List Expr}
    (hparse : parseProgram first = .ok es) (hmode : (lastMode first).inString = false)
    (second : List Char) :
    parseProgram (first ++ '\n' :: second) =
      moved (Text.byteLength first + 1) (es ++ ·) (parseProgram second) := by
  have hlength : Text.byteLength (first ++ '\n' :: second) =
      Text.byteLength first + 1 + Text.byteLength second := by
    rw [Text.byteLength_append, Text.byteLength_cons, ← Nat.add_assoc]
    rfl
  exact parseProgram_of_tokens hparse hlength (tokens_newline hmode second)

/-- An error whose span ends by a bound. -/
def Error.EndsBy (bound : Nat) (error : Error) : Prop :=
  error.span.start ≤ bound ∧ error.span.stop ≤ bound

theorem endsBy_of_parseProgram {source : List Char} {error : Error}
    (h : parseProgram source = .error error) : error.EndsBy (Text.byteLength source) := by
  rcases pointsInto_of_parseProgram h with ⟨p, hspan, _⟩
  have hstart : error.span.start ≤ p.start := by
    rw [hspan]
    exact Nat.min_le_left ..
  have hstop : error.span.stop ≤ p.stop := by
    rw [hspan]
    exact Nat.min_le_left ..
  constructor
  · exact Nat.le_trans hstart (Nat.le_trans p.start_le_stop p.stop_le)
  · exact Nat.le_trans hstop p.stop_le

/--
Programs can be put together.  Behind a program that has no string open at its
end, and a line break, a source reads as it does alone: its expressions follow
those of the program, and its errors are moved by what stands before it.  Spans
are moved exactly as long as their offsets can be held.
-/
theorem parseProgram_concat {first second : List Char} {es : List Expr}
    (hfirst : parseProgram first = .ok es) (hnewline : parseProgram (first ++ ['\n']) = .ok es) :
    (∀ es', parseProgram second = .ok es' →
      parseProgram (first ++ '\n' :: second) = .ok (es ++ es')) ∧
    ∀ error, parseProgram second = .error error →
      parseProgram (first ++ '\n' :: second) =
        .error ⟨error.cause, .ofRange (Text.byteLength first + 1 + error.span.start)
          (Text.byteLength first + 1 + error.span.stop)⟩ ∧
      (Text.byteLength first + 1 + Text.byteLength second ≤ Span.maxOffset →
        parseProgram (first ++ '\n' :: second) =
          .error ⟨error.cause, Text.byteLength first + 1 + error.span.start,
            Text.byteLength first + 1 + error.span.stop⟩) := by
  have hjoin := parseProgram_newline hfirst (inString_lastMode hfirst hnewline) second
  constructor
  · intro es' hsecond
    rw [hjoin, hsecond]
    rfl
  · intro error hsecond
    rw [hsecond] at hjoin
    constructor
    · exact hjoin
    · intro hlength
      have hends := endsBy_of_parseProgram hsecond
      have hstart : Text.byteLength first + 1 + error.span.start ≤ Span.maxOffset :=
        Nat.le_trans (Nat.add_le_add_left hends.1 _) hlength
      have hstop : Text.byteLength first + 1 + error.span.stop ≤ Span.maxOffset :=
        Nat.le_trans (Nat.add_le_add_left hends.2 _) hlength
      rw [← Span.ofRange_of_le hstart hstop]
      exact hjoin

/-- A list, and a bracket in a comment: `(a) ;(`. -/
def commented : List Char := ['(', 'a', ')', ' ', ';', '(']

theorem parseProgram_concat_commented :
    parseProgram commented = .ok [.list [.atom "a"]] ∧
    parseProgram (commented ++ ['\n']) = .ok [.list [.atom "a"]] ∧
    (parseProgram ['\'', 'b'] = .ok [.quoted (.atom "b")] ∧
      parseProgram (commented ++ ['\n', '\'', 'b']) =
        .ok [.list [.atom "a"], .quoted (.atom "b")]) ∧
    parseProgram ['é', ')'] = .error ⟨.unexpectedChar ')', 2, 3⟩ ∧
      parseProgram (commented ++ ['\n', 'é', ')']) = .error ⟨.unexpectedChar ')', 9, 10⟩ := by
  have hfirst : parseProgram commented = .ok [.list [.atom "a"]] := rfl
  have hnewline : parseProgram (commented ++ ['\n']) = .ok [.list [.atom "a"]] := rfl
  have hquoted : parseProgram ['\'', 'b'] = .ok [.quoted (.atom "b")] := rfl
  have hclose : parseProgram ['é', ')'] = .error ⟨.unexpectedChar ')', 2, 3⟩ := rfl
  exact ⟨hfirst, hnewline, ⟨hquoted, (parseProgram_concat hfirst hnewline).1 _ hquoted⟩, hclose,
    ((parseProgram_concat hfirst hnewline).2 _ hclose).2 (by decide)⟩

end Source
end ScopeLisp
