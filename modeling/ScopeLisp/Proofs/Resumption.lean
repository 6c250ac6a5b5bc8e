import ScopeLisp.Proofs.Descent

/-!
# Reading on after errors

## What a reading can leave

A reading moves the cursor on, or it finds nothing but blanks and comments, or a
character that starts no expression.  At the end of a source there is nothing
more to find, and such a character stays where it is.

## Rows of readings

So every reading takes a character of the source, until one finds what all
later ones will find.
-/

namespace ScopeLisp
namespace Source

def isLast : Except Error (Option Expr) → Bool
  | .ok none => true
  | .error ⟨.unclosedList, _⟩ => true
  | .error ⟨.unexpectedEnd, _⟩ => true
  | _ => false

def isStuck : Except Error (Option Expr) → Bool
  | .error ⟨.unexpectedChar _, _⟩ => true
  | _ => false

/-!
# One reading

A token is refused for what it is, with nothing open too, or for the nesting.
-/

/--
What a token that is not taken says: it is refused for what it is, with nothing
open too, or for the nesting; and a malformed token is no sign of the end.
-/
def Step.Explains (stack : List Frame) (token : Token) : Step → Prop
  | .refused error =>
      isStuck (.error error) = true ∧ step [] token = .refused error ∨
        error.cause = .nestingTooDeep maxNesting ∧ maxNesting ≤ stack.length
  | .malformed error => isLast (.error error) = false ∧ isStuck (.error error) = false
  | _ => True

theorem place_explains (e : Expr) (below stack : List Frame) (token : Token) :
    (place e below).Explains stack token := by
  induction below generalizing e with
  | nil =>
      trivial
  | cons frame below ih =>
      cases frame with
      | quote => exact ih (.quoted e)
      | list start items => trivial

theorem descend_explains (token : Token) (frame : Frame) (stack : List Frame) :
    (descend token frame stack).Explains stack token := by
  unfold descend
  split
  · trivial
  · exact .inr ⟨rfl, Nat.not_lt.mp ‹_›⟩

theorem step_explains (stack : List Frame) (token : Token) :
    (step stack token).Explains stack token := by
  rcases token with ⟨lexeme, start, stop⟩
  cases lexeme with
  | openList => exact descend_explains _ _ stack
  | quote => exact descend_explains _ _ stack
  | closeList =>
      cases stack with
      | nil =>
          exact .inl ⟨rfl, rfl⟩
      | cons frame below =>
          cases frame with
          | quote => exact .inl ⟨rfl, rfl⟩
          | list _ items => exact place_explains _ below _ _
  | hash => exact .inl ⟨rfl, rfl⟩
  | atom name => exact place_explains _ stack _ _
  | str text => exact place_explains _ stack _ _
  | num value => exact place_explains _ stack _ _
  | badEscape offset c => exact ⟨rfl, rfl⟩
  | badNumber word => exact ⟨rfl, rfl⟩

theorem length_le_byteLength (text : List Char) : text.length ≤ Text.byteLength text := by
  induction text with
  | nil =>
      exact Nat.le_refl 0
  | cons c text ih =>
      have hsize := c.utf8Size_pos
      rw [Text.byteLength_cons, List.length_cons]
      omega

theorem byteLength_lt_append (before : List Char) {more : List Char} (h : more ≠ []) :
    Text.byteLength before < Text.byteLength (before ++ more) := by
  have hlength := length_le_byteLength more
  have hpos := List.length_pos_iff.mpr h
  rw [Text.byteLength_append]
  omega

theorem exists_of_isStuck {answer : Except Error (Option Expr)} (h : isStuck answer = true) :
    ∃ c span, answer = .error ⟨.unexpectedChar c, span⟩ := by
  unfold isStuck at h
  split at h
  · exact ⟨_, _, rfl⟩
  · cases h

theorem isLast_of_isStuck {answer : Except Error (Option Expr)} (h : isStuck answer = true) :
    isLast answer = false := by
  rcases exists_of_isStuck h with ⟨c, span, rfl⟩
  rfl

namespace Reader

theorem Stands.cursor_lt_stop {before rest : List Char} {r : Reader} (h : r.Stands before rest)
    {front tail : List Token} {token : Token} (hpending : r.pending = front ++ token :: tail) :
    r.cursor < token.stop := by
  rcases h.cut_at hpending with ⟨more, word, after, rfl, _, htoken, _, _⟩
  rw [h.cursor_eq, htoken.stop_eq, List.append_assoc]
  apply byteLength_lt_append
  intro hnil
  exact htoken.text_ne_nil (List.append_eq_nil_iff.mp hnil).2

/-!
# Where a reading leaves the cursor

A reading finds the end of the source, or a character that stays where it is,
or it moves the reader on.
-/

def answer (r : Reader) (count : Nat) : Except Error (Option Expr) :=
  (r.after count).next.1

/--
A reading finds the end of the source, or a character that stays where it is, or
it moves the reader on.
-/
theorem Stands.next_cases {before rest : List Char} {r : Reader} (h : r.Stands before rest) :
    isLast r.next.1 = true ∧ r.next.2 = ended r.length ∧ (r.next.1 = .ok none ∨ rest ≠ []) ∨
    isStuck r.next.1 = true ∧ r.next.2.next = r.next ∨
    isLast r.next.1 = false ∧ isStuck r.next.1 = false ∧ r.cursor < r.next.2.cursor := by
  have hending := r.next_ending
  generalize r.next = result at hending
  generalize hpending : r.pending = pending at hending
  cases hending with
  | atEnd hpushes hend =>
      exact .inl ⟨rfl, rfl, .inl rfl⟩
  | @unfinished _ frames _ hpushes hend =>
      cases frames with
      | nil =>
          cases hend
      | cons frame below =>
          have hrest : rest ≠ [] := by
            rintro rfl
            have hnone := h.cut.length_le
            rw [hpending] at hnone
            cases List.eq_nil_of_length_eq_zero (Nat.le_zero.mp hnone)
            cases hpushes
          refine .inl ⟨?_, rfl, .inr hrest⟩
          cases frame with
          | quote =>
              cases hend
              rfl
          | list start items =>
              cases hend
              rfl
  | done _ _ =>
      exact .inr (.inr ⟨rfl, rfl, h.cursor_lt_stop hpending⟩)
  | @refused front tail token frames error hpushes hstep =>
      rcases h.cut_at hpending with ⟨more, word, after, rfl, hlength, htoken, _, _⟩
      have hexplains := step_explains frames token
      rw [hstep] at hexplains
      rcases hexplains with ⟨hstuck, hagain⟩ | ⟨hcause, hfull⟩
      · refine .inr (.inl ⟨hstuck, ?_⟩)
        rw [Reader.next, readOn_cons, hagain]
        rfl
      · have hmore : more ≠ [] := by
          rintro rfl
          cases List.eq_nil_of_length_eq_zero (Nat.le_zero.mp hlength)
          cases hpushes
          cases hfull
        rcases error with ⟨cause, span⟩
        cases hcause
        refine .inr (.inr ⟨rfl, rfl, ?_⟩)
        show r.cursor < token.start
        rw [h.cursor_eq, htoken.start_eq]
        exact byteLength_lt_append before hmore
  | @malformed front tail token frames error hpushes hstep =>
      have hexplains := step_explains frames token
      rw [hstep] at hexplains
      exact .inr (.inr ⟨hexplains.1, hexplains.2, h.cursor_lt_stop hpending⟩)

section

variable {before rest : List Char} {r : Reader} (h : r.Stands before rest)
include h

theorem Stands.cursor_le : r.cursor ≤ r.length := by
  rw [h.cursor_eq, h.length_eq, Text.byteLength_append]
  exact Nat.le_add_right ..

theorem Stands.cursor_le_next : r.cursor ≤ r.next.2.cursor := by
  rcases h.next with ⟨more, last, rfl, hnext⟩
  rw [h.cursor_eq, hnext.cursor_eq, Text.byteLength_append]
  exact Nat.le_add_right ..

theorem Stands.next_of_isLast (hlast : isLast r.next.1 = true) : r.next.2 = ended r.length := by
  rcases h.next_cases with ⟨_, hnext, _⟩ | ⟨hstuck, _⟩ | ⟨hnot, _⟩
  · exact hnext
  · rw [isLast_of_isStuck hstuck] at hlast
    cases hlast
  · rw [hnot] at hlast
    cases hlast

theorem Stands.next_of_isStuck (hstuck : isStuck r.next.1 = true) : r.next.2.next = r.next := by
  rcases h.next_cases with ⟨hlast, _⟩ | ⟨_, hagain⟩ | ⟨_, hnot, _⟩
  · rw [isLast_of_isStuck hstuck] at hlast
    cases hlast
  · exact hagain
  · rw [hnot] at hstuck
    cases hstuck

theorem Stands.next_of_cursor_eq (hcursor : r.next.2.cursor = r.cursor) :
    r.next.1 = .ok none ∧ r.cursor = r.length ∨ isStuck r.next.1 = true := by
  rcases h.next_cases with ⟨_, hnext, hend⟩ | ⟨hstuck, _⟩ | ⟨_, _, hmoved⟩
  · rw [hnext] at hcursor
    have hatEnd : r.cursor = r.length := hcursor.symm
    rcases hend with hnone | hrest
    · exact .inl ⟨hnone, hatEnd⟩
    · rw [h.cursor_eq, h.length_eq] at hatEnd
      exact absurd hatEnd (Nat.ne_of_lt (byteLength_lt_append before hrest))
  · exact .inr hstuck
  · rw [hcursor] at hmoved
    exact absurd hmoved (Nat.lt_irrefl _)

/-!
# Rows of readings

A reading that does not move the reader is answered as all later ones are.
-/

theorem Stands.length_after (n : Nat) : (r.after n).length = r.length := by
  rcases h.after n with ⟨more, last, rfl, hafter⟩
  rw [hafter.length_eq, h.length_eq, List.append_assoc]

theorem Stands.answer_of_isLast {n m : Nat} (hlast : isLast (r.answer n) = true) (hm : n < m) :
    r.answer m = .ok none := by
  rcases h.after n with ⟨more, last, rfl, hafter⟩
  have hended : r.after m = ended r.length := by
    induction hm with
    | refl =>
        rw [← h.length_after n]
        exact hafter.next_of_isLast hlast
    | step _ ih =>
        rw [Reader.after, ih]
        rfl
  rw [answer, hended]
  rfl

theorem Stands.answer_of_isStuck {n m : Nat} (hstuck : isStuck (r.answer n) = true) (hm : n ≤ m) :
    r.answer m = r.answer n := by
  have hagain : (r.after m).next = (r.after n).next := by
    induction hm with
    | refl =>
        rfl
    | @step m hm ih =>
        rcases h.after m with ⟨more, last, rfl, hafter⟩
        rw [← ih]
        apply hafter.next_of_isStuck
        rw [ih]
        exact hstuck
  rw [answer, hagain]
  rfl

theorem Stands.answer_of_cursor_eq {n m : Nat}
    (hcursor : (r.after (n + 1)).cursor = (r.after n).cursor) (hm : n ≤ m) :
    r.answer m = r.answer n := by
  rcases h.after n with ⟨more, last, rfl, hafter⟩
  rcases hafter.next_of_cursor_eq hcursor with ⟨hnone, _⟩ | hstuck
  · have hnone : r.answer n = .ok none := hnone
    rcases Nat.eq_or_lt_of_le hm with rfl | hm
    · rfl
    · rw [h.answer_of_isLast (by rw [hnone]; rfl) hm, hnone]
  · exact h.answer_of_isStuck hstuck hm

theorem Stands.taken_or_settled (n : Nat) :
    (∃ more last, rest = more ++ last ∧ n ≤ more.length ∧
      (r.after n).Stands (before ++ more) last) ∨
    ∃ m, m < n ∧ ∀ k, m ≤ k → r.answer k = r.answer m := by
  induction n with
  | zero =>
      refine .inl ⟨[], rest, rfl, Nat.zero_le _, ?_⟩
      rw [List.append_nil]
      exact h
  | succ n ih =>
      rcases ih with ⟨more, last, rfl, hlength, hafter⟩ | ⟨m, hm, hsettled⟩
      · rcases hafter.next with ⟨taken, last', rfl, hnext⟩
        cases taken with
        | nil =>
            refine .inr ⟨n, Nat.lt_succ_self n, fun k hk => h.answer_of_cursor_eq ?_ hk⟩
            rw [List.append_nil] at hnext
            exact hnext.cursor_eq.trans hafter.cursor_eq.symm
        | cons c taken =>
            rw [List.append_assoc] at hnext
            refine .inl ⟨more ++ c :: taken, last', by simp, ?_, hnext⟩
            rw [List.length_append, List.length_cons]
            omega
      · exact .inr ⟨m, Nat.lt_succ_of_lt hm, hsettled⟩

theorem Stands.answer_settled {n : Nat} (hn : rest.length ≤ n) :
    r.answer n = r.answer rest.length := by
  rcases h.taken_or_settled (rest.length + 1) with ⟨more, last, rfl, hlength, _⟩ |
    ⟨m, hm, hsettled⟩
  · rw [List.length_append] at hlength
    omega
  · have hm := Nat.le_of_lt_succ hm
    rw [hsettled n (Nat.le_trans hm hn), hsettled rest.length hm]

end

/--
Readings in a row, which go on after errors, make progress and settle.  They are
descents that find the level at zero and leave it there; the cursor never moves
back; a reading that does not move it has found the end of the source or a
character that starts no expression; behind the end nothing follows, and such a
character is found again by every later reading.  So the answers are settled
after at most as many readings as there are characters, which is no more than
there are bytes, and a program is read by at most that many readings and one.
-/
theorem readings_settle (source : List Char) :
    (∀ answers level r, DescendsRepeatedly 0 (ofSource source) answers level r ↔
      level = 0 ∧ answers = (ofSource source).answers answers.length ∧
        r = (ofSource source).after answers.length) ∧
    (∀ n, ((ofSource source).after n).cursor ≤ ((ofSource source).after (n + 1)).cursor ∧
      ((ofSource source).after n).cursor ≤ Text.byteLength source) ∧
    (∀ n, ((ofSource source).after (n + 1)).cursor = ((ofSource source).after n).cursor →
      (ofSource source).answer n = .ok none ∧
          ((ofSource source).after n).cursor = Text.byteLength source ∨
        ∃ c span, (ofSource source).answer n = .error ⟨.unexpectedChar c, span⟩) ∧
    (∀ n m, n < m → isLast ((ofSource source).answer n) = true →
      (ofSource source).answer m = .ok none) ∧
    (∀ n m c span, n < m → (ofSource source).answer n = .error ⟨.unexpectedChar c, span⟩ →
      (ofSource source).answer m = .error ⟨.unexpectedChar c, span⟩) ∧
    (source.length ≤ Text.byteLength source ∧
      ∀ n, source.length ≤ n →
        (ofSource source).answer n = (ofSource source).answer source.length) ∧
    ∃ es : List Expr, es.length ≤ source.length ∧
      ((ofSource source).answers es.length = es.map fun e => .ok (some e)) ∧
      ((ofSource source).answer es.length = .ok none ∧ parseProgram source = .ok es ∨
        ∃ error, (ofSource source).answer es.length = .error error ∧
          parseProgram source = .error error) := by
  have hstands := ofSource_stands source
  refine ⟨?_, ?_, ?_, ?_, ?_, ?_, ?_⟩
  · intro answers level r
    exact descendsRepeatedly_iff
  · intro n
    rcases hstands.after n with ⟨more, last, _, hafter⟩
    have hcursor := hafter.cursor_le
    rw [hstands.length_after n] at hcursor
    exact ⟨hafter.cursor_le_next, hcursor⟩
  · intro n hcursor
    rcases hstands.after n with ⟨more, last, _, hafter⟩
    rcases hafter.next_of_cursor_eq hcursor with ⟨hnone, hatEnd⟩ | hstuck
    · rw [hstands.length_after n] at hatEnd
      exact .inl ⟨hnone, hatEnd⟩
    · exact .inr (exists_of_isStuck hstuck)
  · intro n m hm hlast
    exact hstands.answer_of_isLast hlast hm
  · intro n m c span hm hstuck
    rw [← hstuck]
    exact hstands.answer_of_isStuck (by rw [hstuck]; rfl) (Nat.le_of_lt hm)
  · exact ⟨length_le_byteLength source, fun n hn => hstands.answer_settled hn⟩
  · rcases readAll_after (ofSource source) [] with ⟨es, hlength, hanswers, hend⟩
    exact ⟨es, Nat.le_trans hlength hstands.cut.length_le, hanswers, hend⟩

example : (ofSource ['(', '\'', ')', 'a']).answers 3 =
    [.error ⟨.unexpectedChar ')', 2, 3⟩, .error ⟨.unexpectedChar ')', 2, 3⟩,
      .error ⟨.unexpectedChar ')', 2, 3⟩] := by
  rfl

end Reader

end Source
end ScopeLisp
