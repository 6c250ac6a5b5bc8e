import ScopeLisp.Proofs.ErrorSpans

/-!
# One expression and whole programs

## The first reading

A source that is to be one expression and a source that is a program are both
read from the front, so that the first reading is the same.  It finds nothing,
fails, or gives an expression.

## Behind the first expression

A program reads on behind its first expression, whereas a single expression has
to be all there is.  What follows it is looked at no further than to its first
token, and an error in it does not come to light.
-/

namespace ScopeLisp
namespace Source

/-!
# The first token that is left

What was read before stays in front, and it is all there is only if no token is
left.
-/

/-- What was read before stays in front, and it is all there is only if no token is left. -/
theorem readAll_ok {length : Nat} {read es : List Expr} {tokens : List Token}
    (h : readAll length [] read tokens = .ok es) :
    ∃ later, es = read.reverse ++ later ∧ (later = [] ↔ tokens = []) := by
  have hnothing : Fits [] := trivial
  rcases readAll_reads hnothing h with ⟨later, hlater, hlexemes, _⟩
  refine ⟨later, hlater, ?_⟩
  constructor
  · rintro rfl
    exact List.map_eq_nil_iff.mp hlexemes
  · rintro rfl
    exact List.self_eq_append_right.mp (Except.ok.inj h |>.trans hlater)

theorem Reader.Stands.first_pending {before rest : List Char} {r : Reader}
    (h : r.Stands before rest) {token : Token} {tail : List Token}
    (hpending : r.pending = token :: tail) :
    ∃ gap c after, rest = gap ++ c :: after ∧ skipTrivia rest = c :: after ∧
      token.start = Text.byteLength (before ++ gap) := by
  have hcut := h.cut
  rw [hpending] at hcut
  cases hcut with
  | @cons _ gap text after _ _ hskip htoken _ =>
      cases text with
      | nil =>
          exact absurd rfl htoken.text_ne_nil
      | cons c text =>
          exact ⟨gap, c, text ++ after, rfl, hskip, htoken.start_eq⟩

/-!
# By the first reading

The first reading finds an error, nothing, an expression alone, or an
expression with more behind it.
-/

section First

variable {source : List Char} {r : Reader}

theorem length_of_first {answer : Except Error (Option Expr)}
    (h : (Reader.ofSource source).next = (answer, r)) : r.length = Text.byteLength source := by
  rcases (Reader.ofSource_stands source).next with ⟨before, rest, hsource, hstands⟩
  rw [h] at hstands
  rw [hsource]
  exact hstands.length_eq

theorem of_first_error {error : Error} (h : (Reader.ofSource source).next = (.error error, r)) :
    parseProgram source = .error error ∧ parse source = .error error := by
  have hprogram := (Reader.ofSource source).readAll_eq_next []
  rw [h] at hprogram
  exact ⟨hprogram, by rw [parse, h]⟩

theorem of_first_none (h : (Reader.ofSource source).next = (.ok none, r)) :
    parseProgram source = .ok [] ∧ parse source =
      .error ⟨.unexpectedEnd, .ofRange (Text.byteLength source) (Text.byteLength source)⟩ := by
  have hprogram := (Reader.ofSource source).readAll_eq_next []
  rw [h] at hprogram
  exact ⟨hprogram, by rw [parse, h, ← length_of_first h]⟩

variable {e : Expr} (h : (Reader.ofSource source).next = (.ok (some e), r))
include h

theorem of_first_some :
    parseProgram source = readAll (Text.byteLength source) [] [e] r.pending := by
  have hprogram := (Reader.ofSource source).readAll_eq_next []
  rw [h] at hprogram
  exact hprogram

theorem of_first_alone (hpending : r.pending = []) :
    parseProgram source = .ok [e] ∧ parse source = .ok e := by
  constructor
  · rw [of_first_some h, hpending]
    rfl
  · simp only [parse, h, hpending]

theorem of_first_followed {token : Token} {tail : List Token}
    (hpending : r.pending = token :: tail) :
    ((∃ e' es, parseProgram source = .ok (e :: e' :: es)) ∨
        ∃ error, parseProgram source = .error error) ∧
      parse source =
        .error ⟨.trailingContent, .ofRange token.start (Text.byteLength source)⟩ := by
  constructor
  · cases hprogram : parseProgram source with
    | error error =>
        exact .inr ⟨error, rfl⟩
    | ok es =>
        rw [of_first_some h, hpending] at hprogram
        rcases readAll_ok hprogram with ⟨later, rfl, hlater⟩
        cases later with
        | nil =>
            exact (List.cons_ne_nil _ _ (hlater.mp rfl)).elim
        | cons e' es =>
            exact .inl ⟨e', es, rfl⟩
  · simp only [parse, h, hpending, length_of_first h]

end First

/-- What a source gives as a program and as one expression. -/
inductive Readings (source : List Char) : Except Error (List Expr) → Except Error Expr → Prop where
  | failed {error : Error} (hfirst : (Reader.ofSource source).next.1 = .error error) :
      Readings source (.error error) (.error error)
  | nothing : Readings source (.ok [])
      (.error ⟨.unexpectedEnd, .ofRange (Text.byteLength source) (Text.byteLength source)⟩)
  | alone (e : Expr) : Readings source (.ok [e]) (.ok e)
  | followed {e : Expr} {before gap after : List Char} {c : Char}
      {program : Except Error (List Expr)}
      (hfirst : (Reader.ofSource source).next.1 = .ok (some e))
      (hsource : source = before ++ (gap ++ c :: after))
      (hstands : (Reader.ofSource source).next.2.Stands before (gap ++ c :: after))
      (hskip : skipTrivia (gap ++ c :: after) = c :: after)
      (hprogram : (∃ e' es, program = .ok (e :: e' :: es)) ∨ ∃ error, program = .error error) :
      Readings source program (.error ⟨.trailingContent,
        .ofRange (Text.byteLength (before ++ gap)) (Text.byteLength source)⟩)

theorem readings (source : List Char) : Readings source (parseProgram source) (parse source) := by
  rcases (Reader.ofSource_stands source).next with ⟨before, rest, hsource, hstands⟩
  rcases hfirst : (Reader.ofSource source).next with ⟨error | _ | e, r⟩
  · rcases of_first_error hfirst with ⟨hprogram, hparse⟩
    rw [hprogram, hparse]
    exact .failed (congrArg Prod.fst hfirst)
  · rcases of_first_none hfirst with ⟨hprogram, hparse⟩
    rw [hprogram, hparse]
    exact .nothing
  · cases hpending : r.pending with
    | nil =>
        rcases of_first_alone hfirst hpending with ⟨hprogram, hparse⟩
        rw [hprogram, hparse]
        exact .alone e
    | cons token tail =>
        have hleft := congrArg (fun result => result.2.pending) hfirst
        rcases hstands.first_pending (hleft.trans hpending) with
          ⟨gap, c, after, rfl, hskip, hstart⟩
        rcases of_first_followed hfirst hpending with ⟨hprogram, hparse⟩
        rw [hparse, hstart]
        exact .followed (congrArg Prod.fst hfirst) hsource hstands hskip hprogram

theorem parse_eq_ok_iff (source : List Char) (e : Expr) :
    parse source = .ok e ↔ parseProgram source = .ok [e] := by
  have hreadings := readings source
  generalize parse source = one, parseProgram source = program at hreadings
  cases hreadings with
  | failed hfirst => simp
  | nothing => simp
  | alone e' => simp
  | followed _ _ _ _ hprogram =>
      rcases hprogram with ⟨_, _, rfl⟩ | ⟨_, rfl⟩
      all_goals simp

theorem parse_of_program_nil {source : List Char} (h : parseProgram source = .ok []) :
    parse source =
      .error ⟨.unexpectedEnd, .ofRange (Text.byteLength source) (Text.byteLength source)⟩ := by
  have hreadings := readings source
  rw [h] at hreadings
  generalize parse source = one at hreadings
  cases hreadings with
  | nothing => rfl
  | followed _ _ _ _ hprogram =>
      rcases hprogram with ⟨_, _, hprogram⟩ | ⟨_, hprogram⟩
      all_goals cases hprogram

/--
Reading one expression and reading a program agree on every source whose offsets
can be held.  The first gives an expression if and only if the program is that
expression and no other.  A source without expressions ends too early, and an
error in the first expression is the error of both.  Whatever else the program
gives, there is text behind the first expression, which is pointed at from its
first character that is neither blank nor part of a comment to the end.
-/
theorem one_expression_is_a_program_of_one {source : List Char}
    (hlength : Text.byteLength source ≤ Span.maxOffset) :
    let first := (Reader.ofSource source).next
    let length := Text.byteLength source
    (∀ e, parse source = .ok e ↔ parseProgram source = .ok [e]) ∧
    (parseProgram source = .ok [] →
      parse source = .error ⟨.unexpectedEnd, ⟨length, length⟩⟩) ∧
    (∀ error, first.1 = .error error →
      parseProgram source = .error error ∧ parse source = .error error) ∧
    ((∀ e, parseProgram source ≠ .ok [e]) → parseProgram source ≠ .ok [] →
      (∀ error, first.1 ≠ .error error) →
      ∃ e before gap c after,
        first.1 = .ok (some e) ∧ source = before ++ (gap ++ c :: after) ∧
        first.2.Stands before (gap ++ c :: after) ∧
        skipTrivia (gap ++ c :: after) = c :: after ∧
        ((∃ e' es, parseProgram source = .ok (e :: e' :: es)) ∨
          ∃ error, parseProgram source = .error error) ∧
        parse source =
          .error ⟨.trailingContent, ⟨Text.byteLength (before ++ gap), length⟩⟩) := by
  intro first length
  refine ⟨parse_eq_ok_iff source, ?_, ?_, ?_⟩
  · intro hprogram
    rw [parse_of_program_nil hprogram, Span.ofRange_of_le hlength hlength]
  · intro error herror
    exact of_first_error (Prod.ext herror rfl)
  · intro halone hsome hfailed
    have hreadings := readings source
    generalize parse source = one, parseProgram source = program at hreadings halone hsome ⊢
    cases hreadings with
    | failed hfirst => exact (hfailed _ hfirst).elim
    | nothing => exact (hsome rfl).elim
    | alone e => exact (halone e rfl).elim
    | @followed e before gap after c _ hfirst hsource hstands hskip hprogram =>
        have hstart : Text.byteLength (before ++ gap) ≤ length := by
          simp only [length, hsource, Text.byteLength_append, ← Nat.add_assoc]
          exact Nat.le_add_right ..
        refine ⟨e, before, gap, c, after, hfirst, hsource, hstands, hskip, hprogram, ?_⟩
        rw [Span.ofRange_of_le (Nat.le_trans hstart hlength) hlength]

/-- An atom, a comment that would open a list, and a character that starts no expression. -/
def followedAtom : List Char := ['a', ' ', ';', '(', '\n', '#']

theorem one_expression_is_a_program_of_one_followedAtom :
    Text.byteLength followedAtom ≤ Span.maxOffset ∧
    parseProgram followedAtom = .error ⟨.unexpectedChar '#', ⟨5, 6⟩⟩ ∧
    (∃ before gap c after, followedAtom = before ++ (gap ++ c :: after) ∧
      (Reader.ofSource followedAtom).next.2.Stands before (gap ++ c :: after) ∧
      skipTrivia (gap ++ c :: after) = c :: after ∧
      parse followedAtom = .error ⟨.trailingContent, ⟨Text.byteLength (before ++ gap), 6⟩⟩) ∧
    parse [';', 'é'] = .error ⟨.unexpectedEnd, ⟨3, 3⟩⟩ ∧
    parse ['a', ' '] = .ok (.atom "a") := by
  have hlength : Text.byteLength followedAtom ≤ Span.maxOffset := by decide
  have hprogram : parseProgram followedAtom = .error ⟨.unexpectedChar '#', ⟨5, 6⟩⟩ := by rfl
  have hfirst : (Reader.ofSource followedAtom).next.1 = .ok (some (.atom "a")) := by rfl
  refine ⟨hlength, hprogram, ?_, ?_, ?_⟩
  · rcases (one_expression_is_a_program_of_one hlength).2.2.2 (by simp [hprogram])
      (by simp [hprogram]) (by simp [hfirst]) with
      ⟨_, before, gap, c, after, _, hsource, hstands, hskip, _, hparse⟩
    exact ⟨before, gap, c, after, hsource, hstands, hskip, hparse⟩
  · exact (@one_expression_is_a_program_of_one [';', 'é'] (by decide)).2.1 rfl
  · exact ((@one_expression_is_a_program_of_one ['a', ' '] (by decide)).1 (.atom "a")).mpr rfl

end Source
end ScopeLisp
