import ScopeLisp.Proofs.Concatenation
import ScopeLisp.Proofs.InputLines
import ScopeLisp.Proofs.Sequencing
import ScopeLisp.Shell.Repl

/-!
# Dialogues and programs

## Trimmed programs

Blanks around a program make no difference, unless they stand in a string that
is open at its end.

## Line by line

A dialogue evaluates each line as a program of its own.  When every line can be
read alone, the dialogue evaluates the expressions of the whole text in turn, up
to the first error that it reports.
-/

namespace ScopeLisp
namespace Source

/-!
# Blanks around a program

Blanks in front move the tokens of a source.  Blanks behind it close an open word
or lengthen a comment, which leaves the tokens as they are.
-/

theorem tokensFrom_blanks {blanks : List Char} (hblanks : ∀ c ∈ blanks, Text.isBlank c = true)
    (offset : Nat) (text : List Char) :
    tokensFrom offset (blanks ++ text) = tokensFrom (offset + Text.byteLength blanks) text := by
  induction blanks generalizing offset with
  | nil =>
      rfl
  | cons c blanks ih =>
      rcases List.forall_mem_cons.mp hblanks with ⟨hc, hblanks⟩
      rw [List.cons_append, tokensFrom_blank hc, ih hblanks, Text.byteLength_cons, Nat.add_assoc]

theorem tokensFrom_only_blanks {blanks : List Char} (hblanks : ∀ c ∈ blanks, Text.isBlank c = true)
    (offset : Nat) : tokensFrom offset blanks = [] := by
  have hnothing := tokensFrom_blanks hblanks offset []
  rw [List.append_nil] at hnothing
  exact hnothing

theorem parseProgram_blanks {blanks : List Char} (hblanks : ∀ c ∈ blanks, Text.isBlank c = true)
    (source : List Char) :
    parseProgram (blanks ++ source) =
      moved (Text.byteLength blanks) id (parseProgram source) := by
  have htokens : tokens (blanks ++ source) =
      tokens [] ++ (tokens source).map (Token.shift (Text.byteLength blanks)) := by
    rw [tokens_eq_tokensFrom, tokensFrom_blanks hblanks, Nat.zero_add, tokensFrom_shift]
    rfl
  exact parseProgram_of_tokens rfl (Text.byteLength_append ..) htokens

theorem finish_run_blanks {mode : ScanMode} (hmode : mode.inString = false) {blanks : List Char}
    (hblanks : ∀ c ∈ blanks, Text.isBlank c = true) (offset : Nat) :
    (Scan.run ⟨offset, mode, []⟩ blanks).finish = Scan.finish ⟨offset, mode, []⟩ := by
  cases mode with
  | between =>
      exact tokensFrom_only_blanks hblanks offset
  | comment =>
      rw [finish_run_comment]
      apply tokensFrom_only_blanks
      intro c hc
      exact hblanks c ((List.dropWhile_sublist _).mem hc)
  | word start read =>
      have hends : EndsWord blanks := by
        intro c hc
        simp [isDelimiter, hblanks c (List.mem_of_mem_head? hc)]
      have hword := finish_run_word hends start [] (by simp) offset read
      rw [tokensFrom_only_blanks hblanks, List.append_nil] at hword
      exact hword
  | text start read =>
      cases hmode
  | escape start read =>
      cases hmode

/-!
# Trimming a program

Blanks do not end a string, and behind a backslash they are malformed.  What is
read depends on the tokens alone.
-/

theorem ne_of_isBlank {c d : Char} (hc : Text.isBlank c = true) (hd : Text.isBlank d = false) :
    c ≠ d := by
  rintro rfl
  exact Bool.noConfusion (hc.symm.trans hd)

theorem mode_run_text {blanks : List Char} (hblanks : ∀ c ∈ blanks, Text.isBlank c = true)
    {s : Scan} {start : Nat} {read : List Char} (hmode : s.mode = .text start read) :
    (s.run blanks).mode.inString = true := by
  induction blanks generalizing s read with
  | nil =>
      show s.mode.inString = true
      rw [hmode]
      rfl
  | cons c blanks ih =>
      rcases List.forall_mem_cons.mp hblanks with ⟨hc, hblanks⟩
      have hquote : c ≠ '"' := ne_of_isBlank hc (by decide)
      have hslash : c ≠ '\\' := ne_of_isBlank hc (by decide)
      have hstep : (s.step c).mode = .text start (c :: read) := by
        simp [Scan.step, hmode, hquote, hslash]
      exact ih hblanks hstep

/-- Blanks do not end a string, and behind a backslash they are malformed. -/
theorem inString_of_append_blanks {source blanks : List Char}
    (hblanks : ∀ c ∈ blanks, Text.isBlank c = true) {es : List Expr}
    (hparse : parseProgram (source ++ blanks) = .ok es)
    (hmode : (lastMode (source ++ blanks)).inString = false) :
    (lastMode source).inString = false := by
  have hlexemes := lexemes_of_parseProgram hparse
  rw [lastMode, Scan.run_append] at hmode
  rw [tokens_append] at hlexemes
  cases hlast : lastMode source with
  | between =>
      rfl
  | comment =>
      rfl
  | word start read =>
      rfl
  | text start read =>
      rw [mode_run_text hblanks hlast] at hmode
      cases hmode
  | escape start read =>
      cases blanks with
      | nil =>
          have hnothing : (lastMode source).inString = false := hmode
          rw [hlast] at hnothing
          exact hnothing
      | cons c blanks =>
          rcases List.forall_mem_cons.mp hblanks with ⟨hc, _⟩
          have hquote : c ≠ '"' := ne_of_isBlank hc (by decide)
          rw [hlast] at hlexemes
          have hbad : Lexeme.badEscape (Text.byteLength source - 1) c ∈ Expr.lexemesAll es := by
            rw [← hlexemes]
            show _ ∈ List.map _ (_ ++ (Scan.run (Scan.step _ c) blanks).finish)
            simp only [Scan.step, hquote, if_false]
            rw [Scan.finish_run]
            simp
          cases Expr.isSound_of_mem_lexemesAll es _ hbad

theorem parseProgram_congr {source other : List Char} {es : List Expr}
    (hparse : parseProgram source = .ok es) (htokens : tokens other = tokens source) :
    parseProgram other = .ok es := by
  have hnothing : Fits [] := trivial
  rcases readAll_reads hnothing hparse with ⟨later, hes, hlexemes, hlater⟩
  rw [parseProgram, htokens, hes]
  exact readAll_of_lexemes _ later hlater [] hlexemes

theorem parseProgram_trim {line : List Char} {es : List Expr} (hparse : parseProgram line = .ok es)
    (hmode : (lastMode line).inString = false) : parseProgram (Text.trim line) = .ok es := by
  rcases Text.exists_trim line with ⟨before, after, hline, hbefore, hafter⟩
  generalize Text.trim line = middle at hline
  subst hline
  have hclosed := inString_of_append_blanks hafter hparse hmode
  have htokens : tokens (before ++ middle) = tokens (before ++ middle ++ after) := by
    rw [tokens_append (before ++ middle), finish_run_blanks hclosed hafter,
      ← tokens_eq_closedTokens]
  have hleft := parseProgram_congr hparse htokens
  rw [parseProgram_blanks hbefore] at hleft
  cases hmiddle : parseProgram middle with
  | ok es' =>
      rw [hmiddle] at hleft
      exact hleft
  | error error =>
      rw [hmiddle] at hleft
      cases hleft

/-!
# Lines that are programs

Lines that are programs each are one program together.
-/

def program (source : List Char) : List Expr :=
  (parseProgram source).toOption.getD []

theorem program_eq {source : List Char} {es : List Expr} (h : parseProgram source = .ok es) :
    program source = es := by
  rw [program, h]
  rfl

theorem parseProgram_intercalate {lines : List (List Char)} (hne : lines ≠ [])
    (hlines : ∀ line ∈ lines, parseProgram line = .ok (program line) ∧
      (lastMode line).inString = false) :
    parseProgram (['\n'].intercalate lines) = .ok (lines.flatMap program) := by
  induction lines with
  | nil =>
      exact absurd rfl hne
  | cons line lines ih =>
      rcases List.forall_mem_cons.mp hlines with ⟨⟨hparse, hmode⟩, hrest⟩
      rw [List.flatMap_cons]
      cases lines with
      | nil =>
          simpa using hparse
      | cons next lines =>
          have hwhole := parseProgram_newline hparse hmode (['\n'].intercalate (next :: lines))
          rw [ih (by simp) hrest] at hwhole
          rw [List.intercalate_cons_cons]
          simpa [moved] using hwhole

end Source

/-!
# The answers of a dialogue

A readable line is answered by its last value or by its first failure, and the
dialogue goes on in the session that its evaluation left.
-/

theorem Session.evalAll_of_ne_nil (s : Session) {es : List Expr} (hne : es ≠ [])
    (last last' : Expr) : s.evalAll last es = s.evalAll last' es := by
  cases es with
  | nil => exact absurd rfl hne
  | cons e rest => rfl

theorem Session.evalAll_final {s final : Session} {es : List Expr} {last value : Expr}
    (h : s.evalAll last es = (.ok value, final)) (last' : Expr) :
    ∃ value', s.evalAll last' es = (.ok value', final) := by
  cases es with
  | nil =>
      cases h
      exact ⟨last', rfl⟩
  | cons e rest =>
      exact ⟨value, h⟩

theorem Session.evalAll_error {s final : Session} {es : List Expr} {last : Expr}
    {error : EvalError} (h : s.evalAll last es = (.error error, final)) (last' : Expr) :
    s.evalAll last' es = (.error error, final) := by
  cases es with
  | nil => cases h
  | cons e rest => exact h

namespace Repl

open Source

/-- A line that is no command and can be read, trimmed or not. -/
structure Readable (line : List Char) : Prop where
  no_command : (Text.trim line).head? ≠ some '^'
  parses : parseProgram line = .ok (program line)
  closed : (lastMode line).inString = false

theorem Readable.trimmed {line : List Char} (h : Readable line) :
    parseProgram (Text.trim line) = .ok (program line) :=
  parseProgram_trim h.parses h.closed

theorem ofLine?_eq_none {line : List Char} (h : line.head? ≠ some '^') :
    ReplCommand.ofLine? line = none := by
  unfold ReplCommand.ofLine?
  split
  · exact absurd rfl h
  · rfl

theorem Readable.program_of_isEmpty {line : List Char} (h : Readable line)
    (hempty : (Text.trim line).isEmpty = true) : program line = [] := by
  have htrimmed := h.trimmed
  have hnothing : parseProgram [] = .ok [] := rfl
  rw [List.isEmpty_iff.mp hempty, hnothing] at htrimmed
  exact (Except.ok.inj htrimmed).symm

theorem reply_of_ok {line : List Char} (h : Readable line) {s final : Session} {value : Expr}
    (hall : s.evalAll .null (program line) = (.ok value, final)) :
    reply s line =
      ⟨final, if (Text.trim line).isEmpty then "" else value.toText ++ "\n", "", false⟩ := by
  unfold reply
  cases hempty : (Text.trim line).isEmpty with
  | true =>
      rw [h.program_of_isEmpty hempty] at hall
      cases hall
      simp [hempty]
  | false =>
      simp [hempty, ofLine?_eq_none h.no_command, Session.evalSource_of_ok h.trimmed hall]

theorem reply_of_error {line : List Char} (h : Readable line) {s final : Session}
    {error : EvalError} (hall : s.evalAll .null (program line) = (.error error, final)) :
    reply s line = ⟨final, "", (Failure.evaluation error).report, false⟩ := by
  unfold reply
  cases hempty : (Text.trim line).isEmpty with
  | true =>
      rw [h.program_of_isEmpty hempty] at hall
      cases hall
  | false =>
      simp [hempty, ofLine?_eq_none h.no_command, Session.evalSource_of_error h.trimmed hall]

theorem reply_cases {line : List Char} (h : Readable line) (s : Session) :
    (∃ value final, s.evalAll .null (program line) = (.ok value, final) ∧
      reply s line =
        ⟨final, if (Text.trim line).isEmpty then "" else value.toText ++ "\n", "", false⟩) ∨
    ∃ error final, s.evalAll .null (program line) = (.error error, final) ∧
      reply s line = ⟨final, "", (Failure.evaluation error).report, false⟩ := by
  rcases hall : s.evalAll .null (program line) with ⟨error | value, final⟩
  · exact .inr ⟨error, final, rfl, reply_of_error h hall⟩
  · exact .inl ⟨value, final, rfl, reply_of_ok h hall⟩

theorem Readable.ends {line : List Char} (h : Readable line) (s : Session) :
    (reply s line).ends = false := by
  rcases reply_cases h s with ⟨_, _, _, hreply⟩ | ⟨_, _, _, hreply⟩
  · rw [hreply]
  · rw [hreply]

/-!
# Dialogues in parts

The dialogue depends on its lines up to trimming, and it goes on from where the
dialogue over its first lines would have ended.
-/

theorem converse_cons {s : Session} {line : List Char} (h : (reply s line).ends = false)
    (rest : List (Option (List Char))) :
    converse s (some line :: rest) =
      ⟨(converse (reply s line).session rest).session,
        prompt ++ (reply s line).out ++ (converse (reply s line).session rest).out,
        (reply s line).err ++ (converse (reply s line).session rest).err,
        (converse (reply s line).session rest).broken⟩ := by
  simp [converse, h]

theorem converse_congr {lines lines' : List (List Char)}
    (h : lines.map Text.trim = lines'.map Text.trim) (s : Session) :
    converse s (lines.map some) = converse s (lines'.map some) := by
  induction lines generalizing lines' s with
  | nil =>
      rw [List.map_eq_nil_iff.mp h.symm]
  | cons line lines ih =>
      rcases List.map_eq_cons_iff.mp h.symm with ⟨line', rest', rfl, hline, hrest⟩
      have hreply : reply s line' = reply s line := by
        rw [reply, reply, hline]
      simp only [List.map_cons, converse, hreply, ih hrest.symm]

theorem broken_converse {lines : List (List Char)} (hlines : ∀ line ∈ lines, Readable line)
    (s : Session) : (converse s (lines.map some)).broken = none := by
  induction lines generalizing s with
  | nil =>
      rfl
  | cons line lines ih =>
      rcases List.forall_mem_cons.mp hlines with ⟨hline, hrest⟩
      rw [List.map_cons, converse_cons (hline.ends s)]
      exact ih hrest _

/-- A dialogue goes on from where the dialogue over its first lines would have ended. -/
theorem converse_append {before : List (List Char)} (hbefore : ∀ line ∈ before, Readable line)
    (s : Session) (rest : List (Option (List Char))) :
    ∃ written, (converse s (before.map some)).out = written ++ (prompt ++ "\n") ∧
      converse s (before.map some ++ rest) =
        ⟨(converse (converse s (before.map some)).session rest).session,
          written ++ (converse (converse s (before.map some)).session rest).out,
          (converse s (before.map some)).err ++
            (converse (converse s (before.map some)).session rest).err,
          (converse (converse s (before.map some)).session rest).broken⟩ := by
  induction before generalizing s with
  | nil =>
      exact ⟨"", by simp [converse], by simp [converse]⟩
  | cons line before ih =>
      rcases List.forall_mem_cons.mp hbefore with ⟨hline, hbefore⟩
      rcases ih hbefore (reply s line).session with ⟨written, hout, hrest⟩
      refine ⟨prompt ++ (reply s line).out ++ written, ?_, ?_⟩
      · rw [List.map_cons, converse_cons (hline.ends s), hout]
        simp [String.append_assoc]
      · rw [List.map_cons, List.cons_append, converse_cons (hline.ends s),
          converse_cons (hline.ends s), hrest]
        simp [String.append_assoc]

/-!
# Line by line

The program that the lines make up is evaluated in the same sessions, so it gets
as far as the dialogue does without an error.
-/

theorem report_ne_empty (error : EvalError) : (Failure.evaluation error).report ≠ "" := by
  intro h
  exact absurd (String.append_eq_empty_iff.mp h).2 (by decide)

/-- As long as no error is reported, the dialogue evaluates all expressions in turn. -/
theorem evalAll_of_converse {lines : List (List Char)} (hlines : ∀ line ∈ lines, Readable line)
    {s : Session} (herr : (converse s (lines.map some)).err = "") (last : Expr) :
    ∃ value, s.evalAll last (lines.flatMap program) =
      (.ok value, (converse s (lines.map some)).session) := by
  induction lines generalizing s last with
  | nil =>
      exact ⟨last, rfl⟩
  | cons line lines ih =>
      rcases List.forall_mem_cons.mp hlines with ⟨hline, hrest⟩
      rw [List.map_cons, converse_cons (hline.ends s)] at herr ⊢
      rcases String.append_eq_empty_iff.mp herr with ⟨hreply, hlater⟩
      rw [List.flatMap_cons, Session.evalAll_append]
      rcases reply_cases hline s with ⟨value, final, hall, heq⟩ | ⟨error, final, _, heq⟩
      · rw [heq] at hlater ⊢
        rcases Session.evalAll_final hall last with ⟨value', hvalue'⟩
        rw [hvalue']
        exact ih hrest hlater value'
      · rw [heq] at hreply
        exact absurd hreply (report_ne_empty error)

theorem evalAll_error_of_converse {lines : List (List Char)}
    (hlines : ∀ line ∈ lines, Readable line) {s : Session}
    (herr : (converse s (lines.map some)).err ≠ "") (last : Expr) :
    ∃ before line after error later, lines = before ++ line :: after ∧
      (converse s (before.map some)).err = "" ∧
      ((converse s (before.map some)).session.evalSource (Text.trim line)).1 =
        .error (.evaluation error) ∧
      (converse s (lines.map some)).err = (Failure.evaluation error).report ++ later ∧
      (s.evalAll last (lines.flatMap program)).1 = .error error := by
  induction lines generalizing s last with
  | nil =>
      exact absurd rfl herr
  | cons line lines ih =>
      rcases List.forall_mem_cons.mp hlines with ⟨hline, hrest⟩
      rw [List.map_cons, converse_cons (hline.ends s)] at herr ⊢
      rw [List.flatMap_cons, Session.evalAll_append]
      rcases reply_cases hline s with ⟨value, final, hall, hreply⟩ | ⟨error, final, hall, hreply⟩
      · rw [hreply] at herr ⊢
        rcases Session.evalAll_final hall last with ⟨value', hvalue'⟩
        rcases ih hrest (by simpa using herr) value' with
          ⟨before, failing, after, error, later, rfl, hbefore, hfailing, hreport, hvalue⟩
        refine ⟨line :: before, failing, after, error, later, rfl, ?_, ?_, ?_, ?_⟩
        · rw [List.map_cons, converse_cons (hline.ends s), hreply]
          simpa using hbefore
        · rw [List.map_cons, converse_cons (hline.ends s), hreply]
          exact hfailing
        · simpa using hreport
        · rw [hvalue']
          exact hvalue
      · refine ⟨[], line, lines, error, (converse final (lines.map some)).err, rfl, rfl, ?_, ?_, ?_⟩
        · show (s.evalSource (Text.trim line)).1 = _
          rw [Session.evalSource_of_error hline.trimmed hall]
        · rw [hreply]
        · rw [Session.evalAll_error hall last]

theorem evalAll_value_of_converse {before after : List (List Char)} {line : List Char}
    (hlines : ∀ l ∈ before ++ line :: after, Readable l) (hline : program line ≠ [])
    (hafter : ∀ l ∈ after, program l = []) {s : Session}
    (herr : (converse s ((before ++ line :: after).map some)).err = "") :
    ∃ value written later,
      (converse s (before.map some)).out = written ++ (prompt ++ "\n") ∧
      (converse s ((before ++ line :: after).map some)).out =
        written ++ (prompt ++ (value.toText ++ "\n") ++ later) ∧
      s.evalAll .null ((before ++ line :: after).flatMap program) =
        (.ok value, (converse s ((before ++ line :: after).map some)).session) := by
  rcases List.forall_mem_append.mp hlines with ⟨hbefore, hlines⟩
  rcases List.forall_mem_cons.mp hlines with ⟨hread, hlines⟩
  rcases converse_append hbefore s (some line :: after.map some) with ⟨written, hout, hwhole⟩
  rw [List.map_append, List.map_cons, hwhole, converse_cons (hread.ends _)] at herr ⊢
  rcases String.append_eq_empty_iff.mp herr with ⟨herr, hlater⟩
  rcases String.append_eq_empty_iff.mp hlater with ⟨hreply, hlater⟩
  rcases evalAll_of_converse hbefore herr .null with ⟨earlier, hearlier⟩
  generalize converse s (before.map some) = reached at *
  have hnothing : after.flatMap program = [] := List.flatMap_eq_nil_iff.mpr hafter
  rcases reply_cases hread reached.session with ⟨value, final, hall, heq⟩ | ⟨error, final, _, heq⟩
  · rw [heq] at hlater ⊢
    rcases evalAll_of_converse hlines hlater value with ⟨last, hlast⟩
    rw [hnothing] at hlast
    have hfinal : final = (converse final (after.map some)).session :=
      congrArg Prod.snd hlast
    have hempty : ¬ (Text.trim line).isEmpty = true := by
      intro hempty
      exact hline (hread.program_of_isEmpty hempty)
    refine ⟨value, written, (converse final (after.map some)).out, hout, ?_, ?_⟩
    · rw [if_neg hempty]
    · rw [List.flatMap_append, List.flatMap_cons, hnothing, List.append_nil,
        Session.evalAll_append, hearlier, ← hfinal]
      show reached.session.evalAll earlier (program line) = _
      rw [Session.evalAll_of_ne_nil _ hline earlier .null, hall]
  · rw [heq] at hreply
    exact absurd hreply (report_ne_empty error)

/-!
# From a text to its lines

A text is read as a program and as a dialogue over the same lines, except for
an empty line at its end, which the dialogue does not read.
-/

theorem exists_last_program {lines : List (List Char)} (h : ∃ line ∈ lines, program line ≠ []) :
    ∃ before line after, lines = before ++ line :: after ∧ program line ≠ [] ∧
      ∀ l ∈ after, program l = [] := by
  induction lines with
  | nil =>
      rcases h with ⟨line, hmem, _⟩
      cases hmem
  | cons first lines ih =>
      by_cases hlater : ∃ line ∈ lines, program line ≠ []
      · rcases ih hlater with ⟨before, line, after, rfl, hline, hafter⟩
        exact ⟨first :: before, line, after, rfl, hline, hafter⟩
      · have hnone : ∀ l ∈ lines, program l = [] := by
          intro l hl
          by_contra hne
          exact hlater ⟨l, hl, hne⟩
        rcases h with ⟨line, hmem, hline⟩
        rcases List.mem_cons.mp hmem with rfl | hmem
        · exact ⟨[], line, lines, rfl, hline, hnone⟩
        · exact absurd (hnone line hmem) hline

theorem exists_lines {text : List Char} (hread : ∀ line ∈ text.splitOn '\n', Readable line) :
    ∃ kept rest, text.splitOn '\n' = kept ++ rest ∧ (∀ line ∈ rest, program line = []) ∧
      parseProgram text = .ok (kept.flatMap program) ∧
      ∀ s, converse s (Text.decodedLines (Text.encode text)) = converse s (kept.map some) := by
  rcases Text.lines_splitOn text with ⟨kept, rest, hsplit, hkept, hempty⟩
  have hrest : ∀ line ∈ rest, program line = [] := by
    intro line hmem
    rw [hempty line hmem]
    rfl
  have hwhole := parseProgram_intercalate (List.splitOn_ne_nil '\n' text)
    fun line hmem => ⟨(hread line hmem).parses, (hread line hmem).closed⟩
  rw [List.intercalate_splitOn, hsplit, List.flatMap_append, List.flatMap_eq_nil_iff.mpr hrest,
    List.append_nil] at hwhole
  refine ⟨kept, rest, hsplit, hrest, hwhole, ?_⟩
  intro s
  rw [Text.decodedLines_encode]
  exact converse_congr hkept s

/--
A dialogue agrees with the program that its lines make up.  When the dialogue
reports no error, the program gives the value that was written for the last line
with an expression, and leaves the session as the dialogue does.  Otherwise the
program fails with the first error that the dialogue reports.
-/
theorem converse_agrees_with_evalSource (s : Session) {text : List Char}
    (hcommand : ∀ line ∈ text.splitOn '\n', (Text.trim line).head? ≠ some '^')
    (hlines : ∀ line ∈ text.splitOn '\n', ∃ es,
      parseProgram line = .ok es ∧ parseProgram (line ++ ['\n']) = .ok es)
    (hexpression : ∃ line ∈ text.splitOn '\n', parseProgram line ≠ .ok []) :
    let dialogue := converse s (Text.decodedLines (Text.encode text))
    dialogue.broken = none ∧
    (dialogue.err = "" →
      ∃ before line after value written later,
        text.splitOn '\n' = before ++ line :: after ∧
        parseProgram line ≠ .ok [] ∧ (∀ l ∈ after, parseProgram l = .ok []) ∧
        (converse s (before.map some)).out = written ++ (prompt ++ "\n") ∧
        dialogue.out = written ++ (prompt ++ (value.toText ++ "\n") ++ later) ∧
        s.evalSource text = (.ok value, dialogue.session)) ∧
    (dialogue.err ≠ "" →
      ∃ before line after error later,
        text.splitOn '\n' = before ++ line :: after ∧
        (converse s (before.map some)).err = "" ∧
        ((converse s (before.map some)).session.evalSource (Text.trim line)).1 =
          .error (.evaluation error) ∧
        dialogue.err = (Failure.evaluation error).report ++ later ∧
        (s.evalSource text).1 = .error (.evaluation error)) := by
  have hread : ∀ line ∈ text.splitOn '\n', Readable line := by
    intro line hmem
    rcases hlines line hmem with ⟨es, hparse, hnewline⟩
    refine ⟨hcommand line hmem, ?_, inString_lastMode hparse hnewline⟩
    rw [hparse, program_eq hparse]
  rcases exists_lines hread with ⟨kept, rest, hsplit, hrest, hwhole, hdialogue⟩
  rw [hdialogue s]
  rw [hsplit] at hread hexpression ⊢
  have hkept : ∀ line ∈ kept, Readable line := (List.forall_mem_append.mp hread).1
  refine ⟨broken_converse hkept s, ?_, ?_⟩
  · intro herr
    have hlast : ∃ line ∈ kept, program line ≠ [] := by
      rcases hexpression with ⟨line, hmem, hline⟩
      rw [(hread line hmem).parses] at hline
      have hne : program line ≠ [] := fun h => hline (congrArg Except.ok h)
      rcases List.mem_append.mp hmem with hmem | hmem
      · exact ⟨line, hmem, hne⟩
      · exact absurd (hrest line hmem) hne
    rcases exists_last_program hlast with ⟨before, line, after, rfl, hline, hafter⟩
    rcases evalAll_value_of_converse hkept hline hafter herr with
      ⟨value, written, later, hbefore, hout, hall⟩
    refine ⟨before, line, after ++ rest, value, written, later, by simp, ?_, ?_, hbefore, hout,
      Session.evalSource_of_ok hwhole hall⟩
    · intro hparse
      exact hline (program_eq hparse)
    · intro l hl
      have hnone : program l = [] :=
        List.forall_mem_append.mpr ⟨hafter, hrest⟩ l hl
      have hmem : l ∈ before ++ line :: after ++ rest := by
        rw [List.append_assoc]
        exact List.mem_append_right before (List.mem_cons_of_mem line hl)
      rw [(hread l hmem).parses, hnone]
  · intro herr
    rcases evalAll_error_of_converse hkept herr .null with
      ⟨before, line, after, error, later, rfl, hbefore, hfailing, hreport, hall⟩
    refine ⟨before, line, after ++ rest, error, later, by simp, hbefore, hfailing, hreport, ?_⟩
    rcases hrun : s.evalAll .null ((before ++ line :: after).flatMap program) with ⟨result, final⟩
    rw [hrun] at hall
    cases hall
    rw [Session.evalSource_of_error hwhole hrun]

/-- A binding and a use of it between a blank line and a comment. -/
def bindingText : List Char := "(let ((x 'a)))\r\n\n x ; é\n; end\n".toList

/-- A quote and two calls of functions that do not exist. -/
def failingText : List Char := "'a\n(x)\n(y)".toList

theorem converse_agrees_with_evalSource_binding_failing :
    let s := Session.start (.limited 10)
    (∃ before line after written later,
      bindingText.splitOn '\n' = before ++ line :: after ∧
      parseProgram line ≠ .ok [] ∧ (∀ l ∈ after, parseProgram l = .ok []) ∧
      (converse s (before.map some)).out = written ++ (prompt ++ "\n") ∧
      (converse s (Text.decodedLines (Text.encode bindingText))).out =
        written ++ (prompt ++ ("a" ++ "\n") ++ later) ∧
      s.evalSource bindingText =
        (.ok (.atom "a"), (converse s (Text.decodedLines (Text.encode bindingText))).session)) ∧
    (s.evalSource failingText).1 = .error (.evaluation (.unboundOperator "x")) ∧
    ∃ later, (converse s (Text.decodedLines (Text.encode failingText))).err =
      (Failure.evaluation (.unboundOperator "x")).report ++ later := by
  intro s
  constructor
  · have hsplit : bindingText.splitOn '\n' = ["(let ((x 'a)))\r".toList, [], " x ; é".toList,
        "; end".toList, []] := rfl
    have hcommand : ∀ line ∈ bindingText.splitOn '\n', (Text.trim line).head? ≠ some '^' := by
      rw [hsplit]
      decide
    have hlines : ∀ line ∈ bindingText.splitOn '\n', ∃ es,
        parseProgram line = .ok es ∧ parseProgram (line ++ ['\n']) = .ok es := by
      rw [hsplit]
      simp only [List.forall_mem_cons]
      exact ⟨⟨_, rfl, rfl⟩, ⟨_, rfl, rfl⟩, ⟨_, rfl, rfl⟩, ⟨_, rfl, rfl⟩, ⟨_, rfl, rfl⟩, by simp⟩
    have hexpression : ∃ line ∈ bindingText.splitOn '\n', parseProgram line ≠ .ok [] := by
      refine ⟨" x ; é".toList, by simp [hsplit], ?_⟩
      intro h
      cases h
    have hparse : parseProgram bindingText =
        .ok [.list [.atom "let", .list [.list [.atom "x", .quoted (.atom "a")]]], .atom "x"] := rfl
    have hatom : (s.evalSource bindingText).1 = .ok (.atom "a") := by
      rw [Session.evalSource, hparse]
      rfl
    rcases converse_agrees_with_evalSource s hcommand hlines hexpression with
      ⟨_, hvalue, hfailure⟩
    have herr : (converse s (Text.decodedLines (Text.encode bindingText))).err = "" := by
      by_contra herr
      rcases hfailure herr with ⟨_, _, _, _, _, _, _, _, _, hfirst⟩
      cases hatom.symm.trans hfirst
    rcases hvalue herr with
      ⟨before, line, after, value, written, later, hlast, hline, hafter, hbefore, hout, hvalue⟩
    cases (congrArg Prod.fst hvalue).symm.trans hatom
    exact ⟨before, line, after, written, later, hlast, hline, hafter, hbefore, hout, hvalue⟩
  · have hsplit : failingText.splitOn '\n' = ["'a".toList, "(x)".toList, "(y)".toList] := rfl
    have hcommand : ∀ line ∈ failingText.splitOn '\n', (Text.trim line).head? ≠ some '^' := by
      rw [hsplit]
      decide
    have hlines : ∀ line ∈ failingText.splitOn '\n', ∃ es,
        parseProgram line = .ok es ∧ parseProgram (line ++ ['\n']) = .ok es := by
      rw [hsplit]
      simp only [List.forall_mem_cons]
      exact ⟨⟨_, rfl, rfl⟩, ⟨_, rfl, rfl⟩, ⟨_, rfl, rfl⟩, by simp⟩
    have hexpression : ∃ line ∈ failingText.splitOn '\n', parseProgram line ≠ .ok [] := by
      refine ⟨"'a".toList, by simp [hsplit], ?_⟩
      intro h
      cases h
    have hparse : parseProgram failingText =
        .ok [.quoted (.atom "a"), .list [.atom "x"], .list [.atom "y"]] := rfl
    have hfailing : (s.evalSource failingText).1 =
        .error (.evaluation (.unboundOperator "x")) := by
      rw [Session.evalSource, hparse]
      rfl
    rcases converse_agrees_with_evalSource s hcommand hlines hexpression with
      ⟨_, hvalue, hfailure⟩
    have herr : (converse s (Text.decodedLines (Text.encode failingText))).err ≠ "" := by
      intro herr
      rcases hvalue herr with ⟨_, _, _, _, _, _, _, _, _, _, _, hvalue⟩
      cases (congrArg Prod.fst hvalue).symm.trans hfailing
    rcases hfailure herr with ⟨_, _, _, _, later, _, _, _, hreport, hfirst⟩
    cases hfailing.symm.trans hfirst
    exact ⟨hfailing, later, hreport⟩

end Repl
end ScopeLisp
