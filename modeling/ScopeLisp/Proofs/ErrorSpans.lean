import ScopeLisp.Proofs.Positions

/-!
# What reading errors point at

The span of an error is the text of the token that cannot be read, the escape in
it, or the text from the list that is open up to the end.  All of them are parts
of the source in characters, whatever their lengths in bytes.
-/

namespace ScopeLisp
namespace Source

/-- A source in three parts, the middle one being pointed at. -/
structure Piece (source : List Char) where
  before : List Char
  text : List Char
  after : List Char
  source_eq : source = before ++ (text ++ after)

namespace Piece

variable {source : List Char}

def start (p : Piece source) : Nat :=
  Text.byteLength p.before

def stop (p : Piece source) : Nat :=
  Text.byteLength (p.before ++ p.text)

def span (p : Piece source) : Span :=
  ⟨p.start, p.stop⟩

theorem start_le_stop (p : Piece source) : p.start ≤ p.stop := by
  rw [start, stop, Text.byteLength_append]
  exact Nat.le_add_right ..

theorem stop_le (p : Piece source) : p.stop ≤ Text.byteLength source := by
  rw [congrArg Text.byteLength p.source_eq, ← List.append_assoc, Text.byteLength_append _ p.after]
  exact Nat.le_add_right ..

theorem ofRange_eq_span (h : Text.byteLength source ≤ Span.maxOffset) (p : Piece source) :
    Span.ofRange p.start p.stop = p.span :=
  have hstop := Nat.le_trans p.stop_le h
  Span.ofRange_of_le (Nat.le_trans p.start_le_stop hstop) hstop

end Piece

/-!
# What a cause names

An error points at what its cause names, and an open frame points at the text
that opened it.
-/

/-- What an error with this cause points at. -/
def Cause.Names {source : List Char} (p : Piece source) : Cause → Prop
  | .unexpectedEnd => p.text = [] ∧ p.after = []
  | .unexpectedChar c => p.text = [c] ∧ (c = ')' ∨ c = '#')
  | .unclosedList => (∃ rest, p.text = '(' :: rest) ∧ p.after = []
  | .invalidNumber word => p.text = word.toList
  | .unknownEscape c => p.text = ['\\', c]
  | .trailingContent =>
      (∃ c rest, p.text = c :: rest ∧ Text.isBlank c = false ∧ c ≠ ';') ∧ p.after = []
  | .nestingTooDeep limit => limit = maxNesting ∧ (p.text = ['('] ∨ p.text = ['\''])

def Error.PointsInto (source : List Char) (error : Error) : Prop :=
  ∃ p : Piece source, error.span = .ofRange p.start p.stop ∧ error.cause.Names p

def Frame.OpensIn (source : List Char) : Frame → Prop
  | .list start _ => ∃ before rest, source = before ++ '(' :: rest ∧ start = Text.byteLength before
  | .quote => True

def Step.PointsInto (source : List Char) : Step → Prop
  | .push stack => ∀ frame ∈ stack, frame.OpensIn source
  | .done _ => True
  | .refused error => error.PointsInto source
  | .malformed error => error.PointsInto source

variable {source : List Char}

theorem pointsInto_piece (cause : Cause) (p : Piece source) (h : cause.Names p) {start stop : Nat}
    (hstart : start = p.start) (hstop : stop = p.stop) :
    Error.PointsInto source ⟨cause, .ofRange start stop⟩ := by
  refine ⟨p, ?_, h⟩
  rw [hstart, hstop]

theorem pointsInto_end : Error.PointsInto source
    ⟨.unexpectedEnd, .ofRange (Text.byteLength source) (Text.byteLength source)⟩ :=
  pointsInto_piece .unexpectedEnd ⟨source, [], [], by simp⟩ ⟨rfl, rfl⟩ rfl (by simp [Piece.stop])

/-!
# One token

An error of a step is about the whole of a token, or about the escape in it.
-/

theorem place_pointsInto (e : Expr) {stack : List Frame}
    (h : ∀ frame ∈ stack, frame.OpensIn source) : (place e stack).PointsInto source := by
  induction stack generalizing e with
  | nil =>
      trivial
  | cons frame below ih =>
      rcases List.forall_mem_cons.mp h with ⟨hframe, hbelow⟩
      cases frame with
      | quote => exact ih (.quoted e) hbelow
      | list start items => exact List.forall_mem_cons.mpr ⟨hframe, hbelow⟩

section Token

variable {before text after : List Char} {token : Token}
  (hsource : source = before ++ (text ++ after)) (htoken : token.StandsAt before text)
include hsource htoken

theorem pointsInto_token {cause : Cause}
    (h : cause.Names (⟨before, text, after, hsource⟩ : Piece source)) :
    Error.PointsInto source ⟨cause, .ofRange token.start token.stop⟩ :=
  pointsInto_piece _ _ h htoken.start_eq htoken.stop_eq

theorem descend_pointsInto {frame : Frame} (hframe : frame.OpensIn source)
    (htext : text = ['('] ∨ text = ['\'']) {stack : List Frame}
    (h : ∀ frame ∈ stack, frame.OpensIn source) :
    (descend token frame stack).PointsInto source := by
  unfold descend
  split
  · exact List.forall_mem_cons.mpr ⟨hframe, h⟩
  · exact pointsInto_token hsource htoken ⟨rfl, htext⟩

theorem step_pointsInto {stack : List Frame} (h : ∀ frame ∈ stack, frame.OpensIn source) :
    (step stack token).PointsInto source := by
  rcases token with ⟨lexeme, start, stop⟩
  have hspells := htoken.spells
  cases lexeme with
  | openList =>
      have hopens : Frame.OpensIn source (.list start []) := by
        refine ⟨before, after, ?_, htoken.start_eq⟩
        rw [hsource, show text = ['('] from hspells]
        rfl
      exact descend_pointsInto hsource htoken hopens (.inl hspells) h
  | quote =>
      have hopens : Frame.OpensIn source .quote := trivial
      exact descend_pointsInto hsource htoken hopens (.inr hspells) h
  | closeList =>
      cases stack with
      | nil =>
          exact pointsInto_token hsource htoken ⟨hspells, .inl rfl⟩
      | cons frame below =>
          cases frame with
          | quote => exact pointsInto_token hsource htoken ⟨hspells, .inl rfl⟩
          | list start items => exact place_pointsInto _ (List.forall_mem_cons.mp h).2
  | hash =>
      exact pointsInto_token hsource htoken ⟨hspells, .inr rfl⟩
  | atom name =>
      exact place_pointsInto _ h
  | str text =>
      exact place_pointsInto _ h
  | num value =>
      exact place_pointsInto _ h
  | badEscape position c =>
      rcases hspells with ⟨front, rfl, hposition⟩
      rw [← Text.byteLength_append] at hposition
      have hstop := htoken.stop_eq
      rw [← List.append_assoc] at hstop
      exact pointsInto_piece (.unknownEscape c)
        ⟨before ++ front, ['\\', c], after, by simpa using hsource⟩ rfl hposition hstop
  | badNumber word =>
      exact pointsInto_token hsource htoken hspells

end Token

/-!
# Whole readings

The frames that are open at the end of a source were opened in it, and what is
left to read starts with the text of a token.
-/

theorem opensIn_of_pushes {before text : List Char} {front tail : List Token}
    (hcut : Cut before text (front ++ tail)) {stack frames : List Frame}
    (h : Pushes stack front frames) (hstack : ∀ frame ∈ stack, frame.OpensIn (before ++ text)) :
    ∀ frame ∈ frames, frame.OpensIn (before ++ text) := by
  induction h generalizing before text with
  | nil stack =>
      exact hstack
  | cons hstep _ ih =>
      rcases hcut.token with ⟨skipped, word, after, rfl, htoken, _, hrest⟩
      have hsource : before ++ (skipped ++ (word ++ after)) =
          before ++ skipped ++ (word ++ after) := by
        simp
      have hpush := step_pointsInto hsource htoken hstack
      rw [hstep] at hpush
      have hnext := ih hrest
      rw [List.append_assoc _ word after, ← hsource] at hnext
      exact hnext hpush

theorem pointsInto_of_unfinished {frames : List Frame}
    (hframes : ∀ frame ∈ frames, frame.OpensIn source) {error : Error}
    (h : unfinished? (Text.byteLength source) frames = some error) : error.PointsInto source := by
  cases frames with
  | nil =>
      cases h
  | cons frame below =>
      cases frame with
      | quote =>
          cases h
          exact pointsInto_end
      | list start items =>
          cases h
          rcases (List.forall_mem_cons.mp hframes).1 with ⟨before, rest, hsource, rfl⟩
          exact pointsInto_piece .unclosedList
            ⟨before, '(' :: rest, [], by simpa using hsource⟩ ⟨⟨rest, rfl⟩, rfl⟩ rfl
            (congrArg Text.byteLength hsource)

namespace Reader.Stands

variable {before rest : List Char} {r : Reader}

theorem step_pointsInto (h : r.Stands before rest) {front tail : List Token} {token : Token}
    (hpending : r.pending = front ++ token :: tail) {frames : List Frame}
    (hpushes : Pushes [] front frames) : (step frames token).PointsInto (before ++ rest) := by
  have hframes : ∀ frame ∈ frames, frame.OpensIn (before ++ rest) :=
    opensIn_of_pushes (hpending ▸ h.cut) hpushes (by simp)
  rcases h.cut_at hpending with ⟨more, word, after, rfl, _, htoken, _, _⟩
  exact Source.step_pointsInto (List.append_assoc _ _ _).symm htoken hframes

theorem pointsInto_of_next (h : r.Stands before rest) {error : Error}
    (herror : r.next.1 = .error error) : error.PointsInto (before ++ rest) := by
  have hending := r.next_ending
  generalize r.next = result at herror hending
  generalize hpending : r.pending = pending at hending
  cases hending with
  | atEnd _ _ =>
      cases herror
  | unfinished hpushes hend =>
      cases herror
      have hcut : Cut before rest (pending ++ []) := by
        rw [List.append_nil, ← hpending]
        exact h.cut
      rw [h.length_eq] at hend
      exact pointsInto_of_unfinished (opensIn_of_pushes hcut hpushes (by simp)) hend
  | done _ _ =>
      cases herror
  | refused hpushes hstep =>
      cases herror
      have hpoints := h.step_pointsInto hpending hpushes
      rw [hstep] at hpoints
      exact hpoints
  | malformed hpushes hstep =>
      cases herror
      have hpoints := h.step_pointsInto hpending hpushes
      rw [hstep] at hpoints
      exact hpoints

/-- What is left to read starts with the text of a token. -/
theorem pointsInto_trailing (h : r.Stands before rest) {token : Token} {tail : List Token}
    (hpending : r.pending = token :: tail) : Error.PointsInto (before ++ rest)
      ⟨.trailingContent, .ofRange token.start r.length⟩ := by
  have hlength := h.length_eq
  have hcut := h.cut
  rw [hpending] at hcut
  cases hcut with
  | @cons _ skipped text after _ _ hskip htoken _ =>
      cases text with
      | nil =>
          exact absurd rfl htoken.text_ne_nil
      | cons c text =>
          rw [← List.append_assoc] at hlength
          exact pointsInto_piece .trailingContent
            ⟨before ++ skipped, c :: text ++ after, [], by simp⟩
            ⟨⟨c, text ++ after, rfl, skipTrivia_cons hskip⟩, rfl⟩ htoken.start_eq hlength

end Reader.Stands

theorem pointsInto_of_answers {count : Nat} {error : Error}
    (h : .error error ∈ (Reader.ofSource source).answers count) : error.PointsInto source := by
  rw [Reader.answers_eq] at h
  rcases List.mem_map.mp h with ⟨n, _, hnext⟩
  rcases (Reader.ofSource_stands source).after n with ⟨more, last, hsource, hstands⟩
  rw [hsource]
  exact hstands.pointsInto_of_next hnext

theorem pointsInto_of_parseProgram {error : Error} (h : parseProgram source = .error error) :
    error.PointsInto source := by
  rcases Reader.readAll_after (Reader.ofSource source) [] with
    ⟨es, _, _, ⟨_, hok⟩ | ⟨error', hnext, herror⟩⟩
  · rw [parseProgram] at h
    exact absurd (h.symm.trans hok) (by simp)
  · rcases (Reader.ofSource_stands source).after es.length with ⟨more, last, hsource, hstands⟩
    cases h.symm.trans herror
    rw [hsource]
    exact hstands.pointsInto_of_next hnext

theorem pointsInto_of_parse {error : Error} (h : parse source = .error error) :
    error.PointsInto source := by
  rcases (Reader.ofSource_stands source).next with ⟨more, last, hsource, hstands⟩
  have hfirst {error : Error} (hnext : (Reader.ofSource source).next.1 = .error error) :=
    (Reader.ofSource_stands source).pointsInto_of_next hnext
  rw [parse] at h
  generalize (Reader.ofSource source).next = result at h hfirst hstands
  rcases result with ⟨_ | _ | e, r⟩
  · cases h
    exact hfirst rfl
  · cases h
    rw [hstands.length_eq, hsource]
    exact pointsInto_end
  · cases hpending : r.pending with
    | nil =>
        simp only [hpending] at h
        cases h
    | cons token tail =>
        simp only [hpending] at h
        cases h
        rw [hsource]
        exact hstands.pointsInto_trailing hpending

/-!
# All errors of a source

A token is a piece of its source, and a reader stands at the start of one.  So
no offset falls inside a character.
-/

theorem piece_of_mem_tokens {token : Token} (h : token ∈ tokens source) :
    ∃ p : Piece source, token.start = p.start ∧ token.stop = p.stop := by
  rcases List.append_of_mem h with ⟨front, tail, hpending⟩
  rcases (Reader.ofSource_stands source).cut_at hpending with
    ⟨more, word, after, hsource, _, htoken, _, _⟩
  exact ⟨⟨more, word, after, hsource⟩, htoken.start_eq, htoken.stop_eq⟩

theorem piece_of_after (source : List Char) (count : Nat) :
    ∃ p : Piece source, ((Reader.ofSource source).after count).cursor = p.start := by
  rcases (Reader.ofSource_stands source).after count with ⟨more, last, hsource, hstands⟩
  exact ⟨⟨more, [], last, hsource⟩, hstands.cursor_eq⟩

/--
Every error of a source whose offsets can be held points at what it names,
whether the source is read as one expression, as a program, or by readings in a
row that go on after errors.  Spans, tokens and readers stand between characters.
-/
theorem errors_point_at_their_text (hlength : Text.byteLength source ≤ Span.maxOffset) :
    (∀ error, (parse source = .error error ∨ parseProgram source = .error error ∨
        ∃ count, .error error ∈ (Reader.ofSource source).answers count) →
      error.span.start ≤ error.span.stop ∧ error.span.stop ≤ Text.byteLength source ∧
        ∃ p : Piece source, error.span = p.span ∧ error.cause.Names p) ∧
    (∀ token ∈ tokens source, ∃ p : Piece source, token.start = p.start ∧ token.stop = p.stop) ∧
    ∀ count, ∃ p : Piece source, ((Reader.ofSource source).after count).cursor = p.start := by
  constructor
  · intro error herror
    have hpoints : error.PointsInto source := by
      rcases herror with hparse | hprogram | ⟨count, hanswer⟩
      · exact pointsInto_of_parse hparse
      · exact pointsInto_of_parseProgram hprogram
      · exact pointsInto_of_answers hanswer
    rcases hpoints with ⟨p, hspan, hnames⟩
    rw [Piece.ofRange_eq_span hlength] at hspan
    rw [hspan]
    exact ⟨p.start_le_stop, p.stop_le, p, rfl, hnames⟩
  · constructor
    · intro token htoken
      exact piece_of_mem_tokens htoken
    · exact piece_of_after source

/-- An atom, and in a list a string with an escape that there is not: `é("ü\ß ))`. -/
def accented : List Char := ['é', '(', '"', 'ü', '\\', 'ß', ' ', ')', ')']

theorem errors_point_at_their_text_accented :
    Text.byteLength accented = 12 ∧
    parse accented = .error ⟨.trailingContent, 2, 12⟩ ∧
    parseProgram accented = .error ⟨.unknownEscape 'ß', 6, 9⟩ ∧
    (Reader.ofSource accented).answers 3 =
      [.ok (some (.atom "é")), .error ⟨.unknownEscape 'ß', 6, 9⟩,
        .error ⟨.unexpectedChar ')', 10, 11⟩] ∧
    ∃ p : Piece accented, p.span = ⟨6, 9⟩ ∧ p.text = ['\\', 'ß'] := by
  have hprogram : parseProgram accented = .error ⟨.unknownEscape 'ß', 6, 9⟩ := rfl
  rcases (@errors_point_at_their_text accented (by decide)).1 _ (.inr (.inl hprogram))
    with ⟨_, _, p, hspan, hnames⟩
  exact ⟨rfl, rfl, hprogram, rfl, p, hspan.symm, hnames⟩

end Source
end ScopeLisp
