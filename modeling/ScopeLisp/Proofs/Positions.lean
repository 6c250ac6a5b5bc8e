import ScopeLisp.Proofs.Grammar

/-!
# Where readers stand

## Tokens cut a source

Each token has a text of its own in the source, and between two tokens there is
nothing but blanks and comments.  Offsets are lengths of the text before them,
so they never fall inside a character.

## How a reading ends

A reading opens lists and quotes and adds to them, token by token, until a token
completes the expression, cannot stand where it is, or is malformed, or until
there is no token left.  The reader then stands behind what it has read.

## Readings in a row

Readings can be repeated, also after errors.  Reading a program is such a row of
readings, up to the first that gives no expression.
-/

namespace ScopeLisp
namespace Source

/-!
# Tokens and their texts

What the text of a token is follows from what the token says.
-/

/-- What the text of a token is, by what the token says. -/
def Lexeme.Spells (offset : Nat) (text : List Char) : Lexeme → Prop
  | .openList => text = ['(']
  | .closeList => text = [')']
  | .quote => text = ['\'']
  | .hash => text = ['#']
  | .badEscape position c =>
      ∃ front, text = front ++ ['\\', c] ∧ position = offset + Text.byteLength front
  | .badNumber word => text = word.toList
  | _ => True

structure Token.StandsAt (before text : List Char) (token : Token) : Prop where
  text_ne_nil : text ≠ []
  start_eq : token.start = Text.byteLength before
  stop_eq : token.stop = Text.byteLength (before ++ text)
  spells : token.lexeme.Spells (Text.byteLength before) text

theorem spells_ofWord {word : List Char} (hne : word ≠ []) (offset : Nat) :
    (Lexeme.ofWord word).Spells offset word := by
  rw [ofWord_eq hne]
  cases h : lexWord word with
  | none =>
      exact (String.toList_ofList).symm
  | some lexeme =>
      unfold lexWord at h
      repeat' split at h
      all_goals cases h
      all_goals trivial

theorem tokensFrom_cons {c : Char} (hblank : Text.isBlank c = false) (hcomment : c ≠ ';')
    (offset : Nat) (rest : List Char) :
    ∃ lexeme text after, c :: rest = text ++ after ∧ text ≠ [] ∧ lexeme.Spells offset text ∧
      tokensFrom offset (c :: rest) =
        ⟨lexeme, offset, offset + Text.byteLength text⟩ ::
          tokensFrom (offset + Text.byteLength text) after := by
  cases halone : Lexeme.ofChar? c with
  | some lexeme =>
      have htokens := tokensFrom_alone halone offset rest
      refine ⟨lexeme, [c], rest, rfl, List.cons_ne_nil _ _, ?_⟩
      unfold Lexeme.ofChar? at halone
      repeat' split at halone
      all_goals cases halone
      all_goals subst c
      all_goals exact ⟨rfl, htokens⟩
  | none =>
      have hchars : c ≠ '(' ∧ c ≠ ')' ∧ c ≠ '\'' ∧ c ≠ '#' := by
        unfold Lexeme.ofChar? at halone
        repeat' split at halone
        all_goals cases halone
        exact ⟨‹_›, ‹_›, ‹_›, ‹_›⟩
      rcases hchars with ⟨hopen, hclose, hquote, hhash⟩
      by_cases htext : c = '"'
      · subst htext
        cases hlex : lexText rest with
        | none =>
            rcases finish_run_badEscape hlex offset (offset + 1) [] with
              ⟨front, d, after, rfl, hfinish⟩
            have hlength (text : List Char) :
                offset + Text.byteLength ('"' :: text) = offset + 1 + Text.byteLength text := by
              rw [Text.byteLength_cons, ← Nat.add_assoc]
              rfl
            refine ⟨.badEscape (offset + Text.byteLength ('"' :: front)) d,
              '"' :: front ++ ['\\', d], after, by simp, by simp, ⟨'"' :: front, rfl, rfl⟩, ?_⟩
            rw [List.cons_append, hlength, hlength]
            exact hfinish
        | some result =>
            rcases result with ⟨text, after⟩
            rcases tokensFrom_text hlex offset with ⟨consumed, rfl, htokens⟩
            exact ⟨.str (String.ofList text), '"' :: consumed, after, rfl, List.cons_ne_nil _ _,
              trivial, htokens⟩
      · have hword : isDelimiter c = false :=
          isDelimiter_eq_false_iff.mpr ⟨hblank, hopen, hclose, hquote, htext, hhash, hcomment⟩
        rcases tokensFrom_longestWord hword offset rest with
          ⟨word, after, hlongest, _, hsplit, htokens⟩
        have hne : word ≠ [] := by
          rw [hlongest]
          exact List.cons_ne_nil _ _
        exact ⟨_, word, after, hsplit, hne, spells_ofWord hne offset, htokens⟩

/-!
# Cuts

A cut gives each token its text and leaves out what is between them.
-/

/-- The tokens of a text that stands behind some other text, with what is between them left out. -/
inductive Cut : List Char → List Char → List Token → Prop where
  | nil {before text : List Char} (h : skipTrivia text = []) : Cut before text []
  | cons {before skipped text after : List Char} {token : Token} {tokens : List Token}
      (hskip : skipTrivia (skipped ++ (text ++ after)) = text ++ after)
      (htoken : token.StandsAt (before ++ skipped) text)
      (hrest : Cut (before ++ skipped ++ text) after tokens) :
      Cut before (skipped ++ (text ++ after)) (token :: tokens)

theorem cut_tokensFrom (before text : List Char) :
    Cut before text (tokensFrom (Text.byteLength before) text) := by
  induction hlength : text.length using Nat.strongRecOn generalizing before text with
  | _ n ih =>
      rcases tokensFrom_skipTrivia (Text.byteLength before) text with ⟨skipped, htext, htokens⟩
      rw [← Text.byteLength_append] at htokens
      cases hskip : skipTrivia text with
      | nil =>
          rw [htokens, hskip]
          exact .nil hskip
      | cons c rest =>
          rcases skipTrivia_cons hskip with ⟨hblank, hcomment⟩
          rcases tokensFrom_cons hblank hcomment (Text.byteLength (before ++ skipped)) rest with
            ⟨lexeme, word, after, hword, hne, hspells, hcut⟩
          rw [hskip, hword] at htext
          rw [hword] at hskip
          rw [htokens, hskip, ← hword, hcut, ← Text.byteLength_append]
          subst htext
          have hshorter : after.length < n := by
            have hpos := List.length_pos_iff.mpr hne
            rw [← hlength, List.length_append, List.length_append]
            omega
          exact .cons hskip ⟨hne, rfl, rfl, hspells⟩ (ih after.length hshorter _ after rfl)

/-!
# Texts between tokens

In front of a token there are blanks and comments, which a reader may have
behind it.
-/

theorem skipTrivia_of_cons {c : Char} (hblank : Text.isBlank c = false) (hcomment : c ≠ ';')
    (rest : List Char) : skipTrivia (c :: rest) = c :: rest := by
  rw [skipTrivia, if_neg (by simp [hblank]), if_neg hcomment]

theorem skipTrivia_skipTrivia (text : List Char) :
    skipTrivia (skipTrivia text) = skipTrivia text := by
  cases h : skipTrivia text with
  | nil =>
      rw [skipTrivia]
  | cons c rest =>
      rcases skipTrivia_cons h with ⟨hblank, hcomment⟩
      exact skipTrivia_of_cons hblank hcomment rest

namespace Cut

variable {before text : List Char} {tokens : List Token}

theorem split {front tail : List Token} (h : Cut before text (front ++ tail)) :
    ∃ more after, text = more ++ after ∧ front.length ≤ more.length ∧
      Cut (before ++ more) after tail := by
  induction front generalizing before text with
  | nil =>
      refine ⟨[], text, rfl, Nat.le_refl _, ?_⟩
      rw [List.append_nil]
      exact h
  | cons token front ih =>
      cases h with
      | @cons _ skipped word after _ _ hskip htoken hrest =>
          rcases ih hrest with ⟨more, rest, rfl, hlength, hcut⟩
          refine ⟨skipped ++ word ++ more, rest, by simp, ?_, by simpa using hcut⟩
          have hpos := List.length_pos_iff.mpr htoken.text_ne_nil
          simp only [List.length_append, List.length_cons]
          omega

theorem token {token : Token} (h : Cut before text (token :: tokens)) :
    ∃ skipped word after, text = skipped ++ (word ++ after) ∧
      token.StandsAt (before ++ skipped) word ∧
      Cut (before ++ skipped) (word ++ after) (token :: tokens) ∧
      Cut (before ++ skipped ++ word) after tokens := by
  cases h with
  | @cons _ skipped word after _ _ hskip htoken hrest =>
      have hbare : skipTrivia ([] ++ (word ++ after)) = word ++ after := by
        rw [List.nil_append, ← hskip, skipTrivia_skipTrivia]
      refine ⟨skipped, word, after, rfl, htoken, ?_, hrest⟩
      apply @Cut.cons _ [] _ _ _ _ hbare
      · rw [List.append_nil]
        exact htoken
      · rw [List.append_nil]
        exact hrest

theorem length_le (h : Cut before text tokens) : tokens.length ≤ text.length := by
  rw [← List.append_nil tokens] at h
  rcases h.split with ⟨more, after, rfl, hlength, _⟩
  rw [List.length_append]
  omega

end Cut

/-!
# Readings

Tokens that open frames, or add to open ones, complete no expression.  One
further token ends the reading, or there is none left.
-/

inductive Pushes : List Frame → List Token → List Frame → Prop where
  | nil (stack : List Frame) : Pushes stack [] stack
  | cons {stack next last : List Frame} {token : Token} {rest : List Token}
      (h : step stack token = .push next) (hrest : Pushes next rest last) :
      Pushes stack (token :: rest) last

namespace Reader

/-- How a reading ends. -/
inductive Ending (length : Nat) (stack : List Frame) :
    List Token → Except Error (Option Expr) × Reader → Prop where
  | atEnd {tokens : List Token} {frames : List Frame} (h : Pushes stack tokens frames)
      (hend : unfinished? length frames = none) :
      Ending length stack tokens (.ok none, ended length)
  | unfinished {tokens : List Token} {frames : List Frame} {error : Error}
      (h : Pushes stack tokens frames) (hend : unfinished? length frames = some error) :
      Ending length stack tokens (.error error, ended length)
  | done {front rest : List Token} {token : Token} {frames : List Frame} {e : Expr}
      (h : Pushes stack front frames) (hstep : step frames token = .done e) :
      Ending length stack (front ++ token :: rest) (.ok (some e), ⟨rest, token.stop, length⟩)
  | refused {front rest : List Token} {token : Token} {frames : List Frame} {error : Error}
      (h : Pushes stack front frames) (hstep : step frames token = .refused error) :
      Ending length stack (front ++ token :: rest)
        (.error error, ⟨token :: rest, token.start, length⟩)
  | malformed {front rest : List Token} {token : Token} {frames : List Frame} {error : Error}
      (h : Pushes stack front frames) (hstep : step frames token = .malformed error) :
      Ending length stack (front ++ token :: rest) (.error error, ⟨rest, token.stop, length⟩)

theorem Ending.push {length : Nat} {stack next : List Frame} {token : Token} {rest : List Token}
    {result : Except Error (Option Expr) × Reader} (hstep : step stack token = .push next)
    (h : Ending length next rest result) : Ending length stack (token :: rest) result := by
  cases h with
  | atEnd h hend => exact .atEnd (.cons hstep h) hend
  | unfinished h hend => exact .unfinished (.cons hstep h) hend
  | done h hlast => exact @done _ _ (token :: _) _ _ _ _ (.cons hstep h) hlast
  | refused h hlast => exact @refused _ _ (token :: _) _ _ _ _ (.cons hstep h) hlast
  | malformed h hlast => exact @malformed _ _ (token :: _) _ _ _ _ (.cons hstep h) hlast

theorem readOn_ending (length : Nat) (stack : List Frame) (tokens : List Token) :
    Ending length stack tokens (readOn length stack tokens) := by
  induction tokens generalizing stack with
  | nil =>
      rw [readOn]
      cases hend : unfinished? length stack with
      | none => exact .atEnd (.nil stack) hend
      | some error => exact .unfinished (.nil stack) hend
  | cons token rest ih =>
      rw [readOn_cons]
      cases hstep : step stack token with
      | push next => exact (ih next).push hstep
      | done e => exact @Ending.done _ _ [] _ _ _ _ (.nil stack) hstep
      | refused error => exact @Ending.refused _ _ [] _ _ _ _ (.nil stack) hstep
      | malformed error => exact @Ending.malformed _ _ [] _ _ _ _ (.nil stack) hstep

theorem next_ending (r : Reader) : Ending r.length [] r.pending r.next :=
  readOn_ending r.length [] r.pending

/-!
# Positions of readers

A reading takes the reader on, and never inside a character.
-/

structure Stands (before rest : List Char) (r : Reader) : Prop where
  cursor_eq : r.cursor = Text.byteLength before
  length_eq : r.length = Text.byteLength (before ++ rest)
  cut : Cut before rest r.pending

theorem ofSource_stands (source : List Char) : (ofSource source).Stands [] source :=
  ⟨rfl, rfl, cut_tokensFrom [] source⟩

theorem ended_stands (source : List Char) :
    (ended (Text.byteLength source)).Stands source [] where
  cursor_eq := rfl
  length_eq := by rw [List.append_nil]; rfl
  cut := .nil (by rw [skipTrivia])

theorem Stands.cut_at {before rest : List Char} {r : Reader} (h : r.Stands before rest)
    {front tail : List Token} {token : Token} (hpending : r.pending = front ++ token :: tail) :
    ∃ more word after, rest = more ++ (word ++ after) ∧ front.length ≤ more.length ∧
      token.StandsAt (before ++ more) word ∧ Cut (before ++ more) (word ++ after) (token :: tail) ∧
      Cut (before ++ more ++ word) after tail := by
  have hcut := h.cut
  rw [hpending] at hcut
  rcases hcut.split with ⟨read, unread, rfl, hlength, hcut⟩
  rcases hcut.token with ⟨skipped, word, after, rfl, htoken, hat, hbehind⟩
  rw [List.append_assoc before read skipped] at htoken hat hbehind
  refine ⟨read ++ skipped, word, after, by simp, ?_, htoken, hat, hbehind⟩
  rw [List.length_append]
  omega

/-- A reading takes the reader on, and never inside a character. -/
theorem Stands.next {before rest : List Char} {r : Reader} (h : r.Stands before rest) :
    ∃ more after, rest = more ++ after ∧ r.next.2.Stands (before ++ more) after := by
  have hlength := h.length_eq
  have hending := r.next_ending
  generalize r.next = result at hending
  generalize hpending : r.pending = pending at hending
  have hatEnd : (ended r.length).Stands (before ++ rest) [] := by
    rw [hlength]
    exact ended_stands (before ++ rest)
  cases hending with
  | atEnd _ _ => exact ⟨rest, [], by simp, hatEnd⟩
  | unfinished _ _ => exact ⟨rest, [], by simp, hatEnd⟩
  | done _ _ =>
      rcases h.cut_at hpending with ⟨more, word, after, rfl, _, htoken, _, hbehind⟩
      rw [List.append_assoc before more word] at hbehind
      refine ⟨more ++ word, after, by simp, ?_, by simpa using hlength, hbehind⟩
      rw [← List.append_assoc]
      exact htoken.stop_eq
  | refused _ _ =>
      rcases h.cut_at hpending with ⟨more, word, after, rfl, _, htoken, hat, _⟩
      exact ⟨more, word ++ after, rfl, htoken.start_eq, by simpa using hlength, hat⟩
  | malformed _ _ =>
      rcases h.cut_at hpending with ⟨more, word, after, rfl, _, htoken, _, hbehind⟩
      rw [List.append_assoc before more word] at hbehind
      refine ⟨more ++ word, after, by simp, ?_, by simpa using hlength, hbehind⟩
      rw [← List.append_assoc]
      exact htoken.stop_eq

/-!
# Readings in a row

The answers of a row are those of single readings, each from where the one
before it stopped.
-/

def after (r : Reader) : Nat → Reader
  | 0 => r
  | count + 1 => (r.after count).next.2

theorem after_next (r : Reader) (count : Nat) : r.next.2.after count = r.after (count + 1) := by
  induction count with
  | zero =>
      rfl
  | succ count ih =>
      rw [after, ih]
      rfl

theorem answers_succ (r : Reader) (count : Nat) :
    r.answers (count + 1) = r.next.1 :: r.next.2.answers count :=
  rfl

theorem answers_eq (r : Reader) (count : Nat) :
    r.answers count = (List.range count).map fun n => (r.after n).next.1 := by
  induction count generalizing r with
  | zero =>
      rfl
  | succ count ih =>
      rw [answers_succ, ih, List.range_succ_eq_map, List.map_cons, List.map_map]
      simp only [after_next]
      rfl

theorem Stands.after {before rest : List Char} {r : Reader} (h : r.Stands before rest)
    (count : Nat) :
    ∃ more last, rest = more ++ last ∧ (r.after count).Stands (before ++ more) last := by
  induction count with
  | zero =>
      exact ⟨[], rest, rfl, by rw [List.append_nil]; exact h⟩
  | succ count ih =>
      rcases ih with ⟨more, last, rfl, hstands⟩
      rcases hstands.next with ⟨further, last', rfl, hnext⟩
      rw [List.append_assoc] at hnext
      exact ⟨more ++ further, last', by simp, hnext⟩

/-!
# Programs as rows of readings

A reading that gives an expression takes at least one token.  A program is read
up to the first reading that gives none.
-/

theorem next_ok {r : Reader} {e : Expr} (h : r.next.1 = .ok (some e)) :
    r.next.2.pending.length < r.pending.length ∧ r.next.2.length = r.length := by
  have hending := r.next_ending
  generalize r.next = result at h hending
  generalize r.pending = pending at hending
  cases hending with
  | atEnd _ _ => cases h
  | unfinished _ _ => cases h
  | done _ _ =>
      constructor
      · rw [List.length_append, List.length_cons]
        exact Nat.lt_of_lt_of_le (Nat.lt_succ_self _) (Nat.le_add_left ..)
      · rfl
  | refused _ _ => cases h
  | malformed _ _ => cases h

theorem readAll_eq_next (r : Reader) (read : List Expr) :
    readAll r.length [] read r.pending =
      match r.next.1 with
      | .error error => .error error
      | .ok none => .ok read.reverse
      | .ok (some e) => readAll r.length [] (e :: read) r.next.2.pending := by
  rw [readAll_eq, next]
  rcases readOn r.length [] r.pending with ⟨_ | _ | _, _⟩
  all_goals rfl

theorem readAll_after (r : Reader) (read : List Expr) :
    ∃ es : List Expr, es.length ≤ r.pending.length ∧
      (r.answers es.length = es.map fun e => .ok (some e)) ∧
      ((r.after es.length).next.1 = .ok none ∧
          readAll r.length [] read r.pending = .ok (read.reverse ++ es) ∨
        ∃ error, (r.after es.length).next.1 = .error error ∧
          readAll r.length [] read r.pending = .error error) := by
  induction hpending : r.pending.length using Nat.strongRecOn generalizing r read with
  | _ n ih =>
      cases hnext : r.next.1 with
      | error error =>
          refine ⟨[], Nat.zero_le _, rfl, .inr ⟨error, hnext, ?_⟩⟩
          rw [readAll_eq_next, hnext]
      | ok result =>
          cases result with
          | none =>
              refine ⟨[], Nat.zero_le _, rfl, .inl ⟨hnext, ?_⟩⟩
              rw [readAll_eq_next, hnext, List.append_nil]
          | some e =>
              rcases next_ok hnext with ⟨hshorter, hlength⟩
              rcases ih _ (hpending ▸ hshorter) r.next.2 (e :: read) rfl with
                ⟨es, hes, hanswers, hend⟩
              rw [after_next, hlength] at hend
              refine ⟨e :: es, ?_, ?_, ?_⟩
              · rw [List.length_cons]
                omega
              · rw [List.length_cons, answers_succ, hnext, hanswers]
                rfl
              · rw [readAll_eq_next, hnext, List.length_cons]
                simpa using hend

end Reader

end Source
end ScopeLisp
