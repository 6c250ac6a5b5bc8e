import ScopeLisp.Proofs.Numerals
import ScopeLisp.Source.Token

/-!
# Lexing

## The pass between two tokens

The pass over a source carries the tokens it has closed and looks at none of
them again.  Where no token is open, what follows is therefore cut as a text of
its own, and the pass can be described by what it does with one token.

## Lexing by recursion

The same cut, said without a pass: drop blanks and comments, take the longest
token in front, and go on with the rest.  This lexer stops at the first thing
that is no token.
-/

namespace ScopeLisp
namespace Source

namespace Scan

/-!
# Closed tokens

Closed tokens stay as they are, in front of all that follow.
-/

def behind (s : Scan) (closed : List Token) : Scan :=
  ⟨s.offset, s.mode, s.tokens ++ closed⟩

theorem enter_behind (s : Scan) (closed : List Token) (c : Char) :
    (s.behind closed).enter c = (s.enter c).behind closed := by
  simp only [enter, behind, alone]
  repeat' split
  all_goals rfl

theorem step_behind (s : Scan) (closed : List Token) (c : Char) :
    (s.behind closed).step c = (s.step c).behind closed := by
  rcases s with ⟨offset, mode, tokens⟩
  cases mode with
  | between =>
      exact enter_behind ⟨offset, .between, tokens⟩ closed c
  | comment =>
      simp only [step, behind]
      split <;> rfl
  | word start read =>
      simp only [step, behind, closing]
      split
      · exact enter_behind ⟨offset, .between, _ :: tokens⟩ closed c
      · rfl
  | text start read =>
      simp only [step, behind]
      repeat' split
      all_goals rfl
  | escape start read =>
      simp only [step, behind]
      split <;> rfl

theorem run_behind (s : Scan) (closed : List Token) (text : List Char) :
    (s.behind closed).run text = (s.run text).behind closed := by
  induction text generalizing s with
  | nil =>
      rfl
  | cons c text ih =>
      show ((s.behind closed).step c).run text = ((s.step c).run text).behind closed
      rw [step_behind, ih]

theorem finish_behind (s : Scan) (closed : List Token) :
    (s.behind closed).finish = closed.reverse ++ s.finish := by
  show (s.closing ++ (s.tokens ++ closed)).reverse =
    closed.reverse ++ (s.closing ++ s.tokens).reverse
  rw [← List.append_assoc, List.reverse_append]

theorem finish_run (offset : Nat) (mode : ScanMode) (closed : List Token) (text : List Char) :
    (run ⟨offset, mode, closed⟩ text).finish =
      closed.reverse ++ (run ⟨offset, mode, []⟩ text).finish := by
  rw [← finish_behind, ← run_behind]
  rfl

end Scan

/-!
# Blanks and comments

A comment ends in front of a line break, which is blank.
-/

/-- The tokens of a text that starts at an offset, where no token is open. -/
def tokensFrom (offset : Nat) (text : List Char) : List Token :=
  (Scan.run ⟨offset, .between, []⟩ text).finish

theorem tokens_eq_tokensFrom (source : List Char) : tokens source = tokensFrom 0 source := rfl

theorem tokensFrom_blank {c : Char} (hc : Text.isBlank c = true) (offset : Nat)
    (text : List Char) :
    tokensFrom offset (c :: text) = tokensFrom (offset + c.utf8Size) text := by
  show (Scan.run (Scan.enter ⟨offset, .between, []⟩ c) text).finish = _
  simp only [Scan.enter, hc, if_true]
  rfl

theorem finish_run_comment (offset : Nat) (text : List Char) :
    (Scan.run ⟨offset, .comment, []⟩ text).finish =
      tokensFrom (offset + Text.byteLength (text.takeWhile (· != '\n')))
        (text.dropWhile (· != '\n')) := by
  induction text generalizing offset with
  | nil =>
      rfl
  | cons c text ih =>
      show (Scan.run (Scan.step ⟨offset, .comment, []⟩ c) text).finish = _
      by_cases hc : c = '\n'
      · subst hc
        exact (tokensFrom_blank (by decide) offset text).symm
      · have hne : (c != '\n') = true := bne_iff_ne.mpr hc
        simp only [Scan.step, hc, if_false, List.takeWhile_cons, List.dropWhile_cons, hne, if_true,
          Text.byteLength_cons]
        rw [ih, Nat.add_assoc]

theorem tokensFrom_comment (offset : Nat) (text : List Char) :
    tokensFrom offset (';' :: text) =
      tokensFrom (offset + 1 + Text.byteLength (text.takeWhile (· != '\n')))
        (text.dropWhile (· != '\n')) :=
  finish_run_comment (offset + 1) text

/-!
# Characters and words in front of a text

A word is cut off as a whole, up to a delimiter or the end of the text.
-/

def Lexeme.ofChar? (c : Char) : Option Lexeme :=
  if c = '(' then some .openList
  else if c = ')' then some .closeList
  else if c = '\'' then some .quote
  else if c = '#' then some .hash
  else none

theorem tokensFrom_alone {c : Char} {lexeme : Lexeme} (h : Lexeme.ofChar? c = some lexeme)
    (offset : Nat) (text : List Char) :
    tokensFrom offset (c :: text) =
      ⟨lexeme, offset, offset + 1⟩ :: tokensFrom (offset + 1) text := by
  have hstep : Scan.enter ⟨offset, .between, []⟩ c =
      ⟨offset + 1, .between, [⟨lexeme, offset, offset + 1⟩]⟩ := by
    unfold Lexeme.ofChar? at h
    repeat' split at h
    all_goals cases h
    all_goals subst c
    all_goals rfl
  show (Scan.run (Scan.enter ⟨offset, .between, []⟩ c) text).finish = _
  rw [hstep, Scan.finish_run]
  rfl

/-- A text that can follow a word: it is empty or starts with a delimiter. -/
def EndsWord (text : List Char) : Prop :=
  ∀ c ∈ text.head?, isDelimiter c = true

theorem finish_run_word {rest : List Char} (hrest : EndsWord rest) (start : Nat)
    (word : List Char) (hword : ∀ c ∈ word, isDelimiter c = false) (offset : Nat)
    (read : List Char) :
    (Scan.run ⟨offset, .word start read, []⟩ (word ++ rest)).finish =
      ⟨.ofWord (read.reverse ++ word), start, offset + Text.byteLength word⟩ ::
        tokensFrom (offset + Text.byteLength word) rest := by
  induction word generalizing offset read with
  | nil =>
      cases rest with
      | nil =>
          simp [Scan.run, Scan.finish, Scan.closing, tokensFrom]
      | cons c rest =>
          have hc : isDelimiter c = true := hrest c rfl
          show (Scan.run (Scan.step ⟨offset, .word start read, []⟩ c) rest).finish = _
          simp only [Scan.step, hc, if_true]
          show (Scan.run ⟨offset, .between, [_]⟩ (c :: rest)).finish = _
          rw [Scan.finish_run]
          simp [tokensFrom]
  | cons c word ih =>
      have hc : isDelimiter c = false := hword c List.mem_cons_self
      show (Scan.run (Scan.step ⟨offset, .word start read, []⟩ c) (word ++ rest)).finish = _
      simp only [Scan.step, hc, Bool.false_eq_true, if_false]
      rw [ih (fun d hd => hword d (List.mem_cons_of_mem c hd))]
      simp [Nat.add_assoc]

theorem isDelimiter_eq_false_iff {c : Char} :
    isDelimiter c = false ↔
      Text.isBlank c = false ∧ c ≠ '(' ∧ c ≠ ')' ∧ c ≠ '\'' ∧ c ≠ '"' ∧ c ≠ '#' ∧ c ≠ ';' := by
  simp [isDelimiter, and_assoc]

theorem tokensFrom_word {word rest : List Char} (hne : word ≠ [])
    (hword : ∀ c ∈ word, isDelimiter c = false) (hrest : EndsWord rest) (offset : Nat) :
    tokensFrom offset (word ++ rest) =
      ⟨.ofWord word, offset, offset + Text.byteLength word⟩ ::
        tokensFrom (offset + Text.byteLength word) rest := by
  cases word with
  | nil =>
      exact absurd rfl hne
  | cons c word =>
      have hc := isDelimiter_eq_false_iff.mp (hword c List.mem_cons_self)
      have hstep : Scan.enter ⟨offset, .between, []⟩ c =
          ⟨offset + c.utf8Size, .word offset [c], []⟩ := by
        simp [Scan.enter, hc]
      show (Scan.run (Scan.enter ⟨offset, .between, []⟩ c) (word ++ rest)).finish = _
      rw [hstep, finish_run_word hrest offset word
        (fun d hd => hword d (List.mem_cons_of_mem c hd))]
      simp [Nat.add_assoc]

/-!
# Strings

Behind a double quote the pass takes the same string as the lexer.  Where the
lexer refuses a string, the pass closes it behind the refused escape.
-/

/-- A string behind its first double quote: what it says, and the text behind it. -/
def lexText : List Char → Option (List Char × List Char)
  | [] => some ([], [])
  | c :: rest =>
      if c = '"' then some ([], rest)
      else if c = '\\' then
        match rest with
        | [] => some ([], [])
        | d :: rest =>
            if d = '"' then (lexText rest).map fun (text, rest) => ('"' :: text, rest) else none
      else (lexText rest).map fun (text, rest) => (c :: text, rest)

theorem lexText_quote (rest : List Char) : lexText ('"' :: rest) = some ([], rest) := by
  rw [lexText.eq_def]
  rfl

theorem lexText_plain {c : Char} (hquote : c ≠ '"') (hslash : c ≠ '\\') (rest : List Char) :
    lexText (c :: rest) = (lexText rest).map fun (text, rest) => (c :: text, rest) := by
  rw [lexText.eq_def]
  simp only [hquote, hslash, if_false]

/-- Behind a double quote the pass takes the same string as the lexer. -/
theorem finish_run_text {source text rest : List Char} (h : lexText source = some (text, rest))
    (start offset : Nat) (read : List Char) :
    ∃ consumed, source = consumed ++ rest ∧
      (Scan.run ⟨offset, .text start read, []⟩ source).finish =
        ⟨.str (String.ofList (read.reverse ++ text)), start, offset + Text.byteLength consumed⟩ ::
          tokensFrom (offset + Text.byteLength consumed) rest := by
  fun_induction lexText source generalizing text offset read with
  | case1 =>
      cases h
      exact ⟨[], rfl, by simp [Scan.run, Scan.finish, Scan.closing, tokensFrom]⟩
  | case2 rest =>
      cases h
      refine ⟨['"'], rfl, ?_⟩
      show (Scan.run ⟨offset + 1, .between, [_]⟩ rest).finish = _
      rw [Scan.finish_run, List.append_nil]
      rfl
  | case3 =>
      cases h
      refine ⟨['\\'], rfl, ?_⟩
      simp [Scan.run, Scan.step, Scan.finish, Scan.closing, tokensFrom]
  | case4 source _ ih =>
      rcases Option.map_eq_some_iff.mp h with ⟨⟨tail, last⟩, htail, heq⟩
      cases heq
      rcases ih htail (offset + 1 + 1) ('"' :: read) with ⟨consumed, rfl, hfinish⟩
      refine ⟨'\\' :: '"' :: consumed, rfl, ?_⟩
      have hlength : offset + Text.byteLength ('\\' :: '"' :: consumed) =
          offset + 1 + 1 + Text.byteLength consumed := by
        rw [Text.byteLength_cons, Text.byteLength_cons, ← Nat.add_assoc, ← Nat.add_assoc]
        rfl
      rw [hlength, List.append_cons, ← List.reverse_cons]
      exact hfinish
  | case5 =>
      cases h
  | case6 c source hquote hslash ih =>
      rcases Option.map_eq_some_iff.mp h with ⟨⟨tail, last⟩, htail, heq⟩
      cases heq
      rcases ih htail (offset + c.utf8Size) (c :: read) with ⟨consumed, rfl, hfinish⟩
      refine ⟨c :: consumed, rfl, ?_⟩
      show (Scan.run (Scan.step ⟨offset, .text start read, []⟩ c) _).finish = _
      simp only [Scan.step, hquote, hslash, if_false]
      rw [hfinish]
      simp [Nat.add_assoc]

theorem tokensFrom_text {source text rest : List Char} (h : lexText source = some (text, rest))
    (offset : Nat) :
    ∃ consumed, source = consumed ++ rest ∧
      tokensFrom offset ('"' :: source) =
        ⟨.str (String.ofList text), offset, offset + Text.byteLength ('"' :: consumed)⟩ ::
          tokensFrom (offset + Text.byteLength ('"' :: consumed)) rest := by
  rcases finish_run_text h offset (offset + 1) [] with ⟨consumed, hsource, hfinish⟩
  refine ⟨consumed, hsource, ?_⟩
  rw [Text.byteLength_cons, ← Nat.add_assoc]
  exact hfinish

theorem finish_run_badEscape {source : List Char} (h : lexText source = none)
    (start offset : Nat) (read : List Char) :
    ∃ front c rest, source = front ++ '\\' :: c :: rest ∧
      (Scan.run ⟨offset, .text start read, []⟩ source).finish =
        ⟨.badEscape (offset + Text.byteLength front) c, start,
            offset + Text.byteLength (front ++ ['\\', c])⟩ ::
          tokensFrom (offset + Text.byteLength (front ++ ['\\', c])) rest := by
  fun_induction lexText source generalizing offset read with
  | case1 =>
      cases h
  | case2 =>
      cases h
  | case3 =>
      cases h
  | case4 source _ ih =>
      rcases ih (Option.map_eq_none_iff.mp h) (offset + 1 + 1) ('"' :: read) with
        ⟨front, c, rest, rfl, hfinish⟩
      refine ⟨'\\' :: '"' :: front, c, rest, rfl, ?_⟩
      have hlength (text : List Char) : offset + Text.byteLength ('\\' :: '"' :: text) =
          offset + 1 + 1 + Text.byteLength text := by
        rw [Text.byteLength_cons, Text.byteLength_cons, ← Nat.add_assoc, ← Nat.add_assoc]
        rfl
      rw [List.cons_append, List.cons_append, hlength, hlength]
      exact hfinish
  | case5 c source hquote _ =>
      refine ⟨[], c, source, rfl, ?_⟩
      have hrun : (Scan.run ⟨offset, .text start read, []⟩ ('\\' :: c :: source)).finish =
          (Scan.run (Scan.step ⟨offset + 1, .escape start read, []⟩ c) source).finish := rfl
      have hlength : offset + Text.byteLength ['\\', c] = offset + 1 + c.utf8Size := by
        rw [Text.byteLength_cons, Text.byteLength_cons, ← Nat.add_assoc]
        rfl
      rw [hrun, List.nil_append, hlength]
      simp only [Scan.step, hquote, if_false]
      rw [Scan.finish_run]
      rfl
  | case6 c source hquote hslash ih =>
      rcases ih (Option.map_eq_none_iff.mp h) (offset + c.utf8Size) (c :: read) with
        ⟨front, d, rest, rfl, hfinish⟩
      refine ⟨c :: front, d, rest, rfl, ?_⟩
      show (Scan.run (Scan.step ⟨offset, .text start read, []⟩ c) _).finish = _
      simp only [Scan.step, hquote, hslash, if_false]
      rw [hfinish]
      simp [Nat.add_assoc]

/-!
# Words

A word of digits and dots is a numeral if it has a digit and no second dot.
-/

def numeralValue (word : List Char) : Binary32 :=
  let places := ((word.dropWhile (· != '.')).drop 1).length
  Binary32.ofDecimal ⟨Nat.ofDigitChars 10 (word.filter Char.isDigit) 0, -(places : Int)⟩

def lexWord (word : List Char) : Option Lexeme :=
  if word.all isNumeric then
    if word.any Char.isDigit && decide (word.count '.' ≤ 1) then
      some (.num (numeralValue word))
    else
      none
  else
    some (.atom (String.ofList word))

theorem exists_digits_of_numeric (word : List Char) (h : ∀ c ∈ word, isNumeric c = true) :
    ∃ whole, (∀ c ∈ whole, c.isDigit = true) ∧
      (word = whole ∨ ∃ fraction, word = whole ++ '.' :: fraction) := by
  induction word with
  | nil =>
      exact ⟨[], by simp, .inl rfl⟩
  | cons c word ih =>
      by_cases hc : c.isDigit = true
      · rcases ih (fun d hd => h d (List.mem_cons_of_mem c hd)) with ⟨whole, hwhole, hword⟩
        refine ⟨c :: whole, List.forall_mem_cons.mpr ⟨hc, hwhole⟩, ?_⟩
        rcases hword with rfl | ⟨fraction, rfl⟩
        · exact .inl rfl
        · exact .inr ⟨fraction, rfl⟩
      · have hdot : c = '.' := by
          simpa [isNumeric, hc] using h c List.mem_cons_self
        subst hdot
        exact ⟨[], by simp, .inr ⟨word, rfl⟩⟩

theorem any_isDigit_of_digits {text : List Char} (h : ∀ c ∈ text, c.isDigit = true) :
    text.any Char.isDigit = !text.isEmpty := by
  cases text with
  | nil =>
      rfl
  | cons c text =>
      simp [h c List.mem_cons_self]

theorem count_dot_of_digits {text : List Char} (h : ∀ c ∈ text, c.isDigit = true) :
    text.count '.' = 0 :=
  List.count_eq_zero.mpr fun hdot => absurd (h '.' hdot) (by decide)

/-- A word of digits and dots is a numeral if it has a digit and no second dot. -/
theorem ofNumeral?_eq {word : List Char} (hne : word ≠ [])
    (h : ∀ c ∈ word, isNumeric c = true) :
    Binary32.ofNumeral? word =
      if word.any Char.isDigit && decide (word.count '.' ≤ 1) then some (numeralValue word)
      else none := by
  rcases exists_digits_of_numeric word h with ⟨whole, hwhole, rfl | ⟨fraction, rfl⟩⟩
  · simp [Binary32.ofNumeral?, Decimal.ofNumeral?_whole hwhole hne, numeralValue,
      any_isDigit_of_digits hwhole, hne, count_dot_of_digits hwhole,
      List.filter_eq_self.mpr hwhole, Decimal.dropWhile_whole hwhole]
  · have hdots : (whole ++ '.' :: fraction).count '.' = fraction.count '.' + 1 := by
      simp [count_dot_of_digits hwhole]
    by_cases hfraction : ∀ c ∈ fraction, c.isDigit = true
    · have hall : ∀ c ∈ whole ++ fraction, c.isDigit = true :=
        List.forall_mem_append.mpr ⟨hwhole, hfraction⟩
      have hany : (whole ++ '.' :: fraction).any Char.isDigit = !(whole ++ fraction).isEmpty := by
        rw [← any_isDigit_of_digits hall, List.any_append, List.any_append]
        rfl
      have hfilter : (whole ++ '.' :: fraction).filter Char.isDigit = whole ++ fraction := by
        rw [List.filter_append, List.filter_cons_of_neg (by decide), ← List.filter_append]
        exact List.filter_eq_self.mpr hall
      simp only [Binary32.ofNumeral?, Decimal.ofNumeral?_dotted hwhole, List.all_eq_true.mpr hall,
        Bool.true_and, hany, hdots, count_dot_of_digits hfraction, numeralValue, hfilter,
        Decimal.dropWhile_dotted hwhole]
      cases (whole ++ fraction).isEmpty <;> rfl
    · have hbad : fraction.all Char.isDigit = false :=
        List.all_eq_false.mpr (by simpa using hfraction)
      have hall : (whole ++ fraction).all Char.isDigit = false := by
        rw [List.all_append, hbad, Bool.and_false]
      have hmore : ¬ fraction.count '.' + 1 ≤ 1 := by
        intro hone
        apply hfraction
        intro c hc
        have hnumeric : isNumeric c = true := h c (by simp [hc])
        have hdot : '.' ∉ fraction :=
          List.count_eq_zero.mp (Nat.le_zero.mp (Nat.le_of_succ_le_succ hone))
        have hne : c ≠ '.' := fun heq => hdot (heq ▸ hc)
        simpa [isNumeric, hne] using hnumeric
      simp only [Binary32.ofNumeral?, Decimal.ofNumeral?_dotted hwhole, hall, Bool.false_and, hdots,
        hmore, decide_false, Bool.and_false]
      rfl

def Lexeme.isSound : Lexeme → Bool
  | .hash => false
  | .badEscape _ _ => false
  | .badNumber _ => false
  | _ => true

theorem isSound_of_lexWord {word : List Char} {lexeme : Lexeme} (h : lexWord word = some lexeme) :
    lexeme.isSound = true := by
  unfold lexWord at h
  repeat' split at h
  all_goals cases h
  all_goals rfl

theorem ofWord_eq {word : List Char} (hne : word ≠ []) :
    Lexeme.ofWord word = (lexWord word).getD (.badNumber (String.ofList word)) := by
  unfold Lexeme.ofWord lexWord
  split
  · rename_i hnumeric
    rw [ofNumeral?_eq hne (List.all_eq_true.mp hnumeric)]
    cases word.any Char.isDigit && decide (word.count '.' ≤ 1) <;> rfl
  · rfl

/-!
# The lexer

The lexer skips blanks and comments and takes one token off the text in front
of it.
-/

def skipTrivia (text : List Char) : List Char :=
  match text with
  | [] => []
  | c :: rest =>
      if Text.isBlank c then skipTrivia rest
      else if c = ';' then skipTrivia (rest.dropWhile (· != '\n'))
      else c :: rest
termination_by text.length
decreasing_by
  · exact Nat.lt_succ_self _
  · exact Nat.lt_succ_of_le (List.dropWhile_suffix _).length_le

def lexToken (c : Char) (rest : List Char) : Option (Lexeme × List Char) :=
  if c = '(' then some (.openList, rest)
  else if c = ')' then some (.closeList, rest)
  else if c = '\'' then some (.quote, rest)
  else if c = '#' then none
  else if c = '"' then
    (lexText rest).map fun (text, rest) => (.str (String.ofList text), rest)
  else
    (lexWord (c :: rest.takeWhile fun d => !isDelimiter d)).map fun lexeme =>
      (lexeme, rest.dropWhile fun d => !isDelimiter d)

/-!
# The pass takes what the lexer takes

The pass takes the same token off a text as the lexer, or one that is not
sound.  It makes nothing of blanks and comments.
-/

/-- The pass takes the same token off a text as the lexer, or one that is not sound. -/
def TakesFrom (offset : Nat) (text : List Char) : Option (Lexeme × List Char) → Prop
  | some (lexeme, rest) =>
      lexeme.isSound = true ∧ ∃ consumed, text = consumed ++ rest ∧
        tokensFrom offset text = ⟨lexeme, offset, offset + Text.byteLength consumed⟩ ::
          tokensFrom (offset + Text.byteLength consumed) rest
  | none =>
      ∃ token tokens, tokensFrom offset text = token :: tokens ∧ token.lexeme.isSound = false

theorem takesFrom_alone {c : Char} {lexeme : Lexeme} (h : Lexeme.ofChar? c = some lexeme)
    (hsound : lexeme.isSound = true) (hsize : c.utf8Size = 1) (offset : Nat) (rest : List Char) :
    TakesFrom offset (c :: rest) (some (lexeme, rest)) := by
  refine ⟨hsound, [c], rfl, ?_⟩
  rw [tokensFrom_alone h, Text.byteLength_cons, hsize]
  rfl

theorem takesFrom_text (offset : Nat) (rest : List Char) :
    TakesFrom offset ('"' :: rest)
      ((lexText rest).map fun (text, rest) => (.str (String.ofList text), rest)) := by
  cases h : lexText rest with
  | none =>
      rcases finish_run_badEscape h offset (offset + 1) [] with ⟨front, c, after, _, hfinish⟩
      exact ⟨_, _, hfinish, rfl⟩
  | some result =>
      rcases result with ⟨text, after⟩
      rcases tokensFrom_text h offset with ⟨consumed, hrest, htokens⟩
      exact ⟨rfl, '"' :: consumed, congrArg _ hrest, htokens⟩

theorem tokensFrom_longestWord {c : Char} (hc : isDelimiter c = false) (offset : Nat)
    (rest : List Char) :
    ∃ word after, word = c :: rest.takeWhile (fun d => !isDelimiter d) ∧
      after = rest.dropWhile (fun d => !isDelimiter d) ∧ c :: rest = word ++ after ∧
      tokensFrom offset (c :: rest) =
        ⟨.ofWord word, offset, offset + Text.byteLength word⟩ ::
          tokensFrom (offset + Text.byteLength word) after := by
  let word := c :: rest.takeWhile fun d => !isDelimiter d
  let after := rest.dropWhile fun d => !isDelimiter d
  have hsplit : c :: rest = word ++ after :=
    congrArg _ List.takeWhile_append_dropWhile.symm
  have hword : ∀ d ∈ word, isDelimiter d = false := by
    have htaken := List.all_eq_true.mp
      (List.all_takeWhile (p := fun d => !isDelimiter d) (l := rest))
    exact List.forall_mem_cons.mpr ⟨hc, fun d hd => by simpa using htaken d hd⟩
  have hafter : EndsWord after := by
    intro d hd
    have hhead := List.head?_dropWhile_not (fun d => !isDelimiter d) rest
    rw [Option.mem_def.mp hd] at hhead
    simpa using hhead
  refine ⟨word, after, rfl, rfl, hsplit, ?_⟩
  rw [hsplit]
  exact tokensFrom_word (List.cons_ne_nil _ _) hword hafter offset

theorem takesFrom_word {c : Char} (hc : isDelimiter c = false) (offset : Nat)
    (rest : List Char) :
    TakesFrom offset (c :: rest)
      ((lexWord (c :: rest.takeWhile fun d => !isDelimiter d)).map fun lexeme =>
        (lexeme, rest.dropWhile fun d => !isDelimiter d)) := by
  rcases tokensFrom_longestWord hc offset rest with ⟨word, after, hword, hafter, hsplit, htokens⟩
  have hne : word ≠ [] := by
    rw [hword]
    exact List.cons_ne_nil _ _
  rw [ofWord_eq hne] at htokens
  rw [← hword, ← hafter]
  cases h : lexWord word with
  | none =>
      rw [h] at htokens
      exact ⟨_, _, htokens, rfl⟩
  | some lexeme =>
      rw [h] at htokens
      exact ⟨isSound_of_lexWord h, word, hsplit, htokens⟩

theorem takesFrom_lexToken {c : Char} (hblank : Text.isBlank c = false) (hcomment : c ≠ ';')
    (offset : Nat) (rest : List Char) :
    TakesFrom offset (c :: rest) (lexToken c rest) := by
  by_cases hopen : c = '('
  · subst hopen
    exact takesFrom_alone rfl rfl rfl offset rest
  by_cases hclose : c = ')'
  · subst hclose
    exact takesFrom_alone rfl rfl rfl offset rest
  by_cases hquote : c = '\''
  · subst hquote
    exact takesFrom_alone rfl rfl rfl offset rest
  by_cases hhash : c = '#'
  · subst hhash
    exact ⟨_, _, tokensFrom_alone rfl offset rest, rfl⟩
  by_cases htext : c = '"'
  · subst htext
    exact takesFrom_text offset rest
  have hword : isDelimiter c = false :=
    isDelimiter_eq_false_iff.mpr ⟨hblank, hopen, hclose, hquote, htext, hhash, hcomment⟩
  simp only [lexToken, hopen, hclose, hquote, hhash, htext, if_false]
  exact takesFrom_word hword offset rest

theorem skipTrivia_cons {text rest : List Char} {c : Char} (h : skipTrivia text = c :: rest) :
    Text.isBlank c = false ∧ c ≠ ';' := by
  fun_induction skipTrivia text with
  | case1 =>
      cases h
  | case2 d text hblank ih =>
      exact ih h
  | case3 text hblank ih =>
      exact ih h
  | case4 d text hblank hcomment =>
      cases h
      exact ⟨Bool.eq_false_iff.mpr hblank, hcomment⟩

theorem tokensFrom_skipTrivia (offset : Nat) (text : List Char) :
    ∃ skipped, text = skipped ++ skipTrivia text ∧
      tokensFrom offset text =
        tokensFrom (offset + Text.byteLength skipped) (skipTrivia text) := by
  fun_induction skipTrivia text generalizing offset with
  | case1 =>
      exact ⟨[], rfl, rfl⟩
  | case2 c text hblank ih =>
      rcases ih (offset + c.utf8Size) with ⟨skipped, htext, htokens⟩
      refine ⟨c :: skipped, congrArg _ htext, ?_⟩
      rw [tokensFrom_blank hblank, htokens, Text.byteLength_cons, Nat.add_assoc]
  | case3 text hblank ih =>
      rcases ih (offset + 1 + Text.byteLength (text.takeWhile (· != '\n'))) with
        ⟨skipped, htext, htokens⟩
      refine ⟨';' :: text.takeWhile (· != '\n') ++ skipped, ?_, ?_⟩
      · rw [List.cons_append, List.cons_append, List.append_assoc, ← htext,
          List.takeWhile_append_dropWhile]
      · rw [tokensFrom_comment, htokens, Text.byteLength_append, Text.byteLength_cons,
          ← Nat.add_assoc, ← Nat.add_assoc]
        rfl
  | case4 c text hblank hcomment =>
      exact ⟨[], rfl, rfl⟩

theorem takesFrom_of_skipTrivia {source rest : List Char} {c : Char}
    (h : skipTrivia source = c :: rest) (offset : Nat) :
    ∃ start, tokensFrom offset source = tokensFrom start (c :: rest) ∧
      TakesFrom start (c :: rest) (lexToken c rest) := by
  rcases skipTrivia_cons h with ⟨hblank, hcomment⟩
  rcases tokensFrom_skipTrivia offset source with ⟨skipped, _, htokens⟩
  rw [h] at htokens
  exact ⟨_, htokens, takesFrom_lexToken hblank hcomment _ rest⟩

theorem length_skipTrivia_le (text : List Char) : (skipTrivia text).length ≤ text.length := by
  rcases tokensFrom_skipTrivia 0 text with ⟨skipped, htext, _⟩
  have hlength := congrArg List.length htext
  rw [List.length_append] at hlength
  omega

theorem length_of_lexToken {c : Char} {rest after : List Char} {lexeme : Lexeme}
    (h : lexToken c rest = some (lexeme, after)) : after.length ≤ rest.length := by
  unfold lexToken at h
  repeat' split at h
  · cases h
    exact Nat.le_refl _
  · cases h
    exact Nat.le_refl _
  · cases h
    exact Nat.le_refl _
  · cases h
  · rcases Option.map_eq_some_iff.mp h with ⟨⟨text, last⟩, htext, heq⟩
    cases heq
    rcases finish_run_text htext 0 0 [] with ⟨consumed, rfl, _⟩
    rw [List.length_append]
    exact Nat.le_add_left ..
  · rcases Option.map_eq_some_iff.mp h with ⟨word, _, heq⟩
    cases heq
    exact (List.dropWhile_suffix _).length_le

/--
The lexemes of a source, one after the other, if it has no `#` where a token
starts, no escape but that of a double quote, and no word of digits and dots
that is not a number.
-/
def lex (source : List Char) : Option (List Lexeme) :=
  match _ : skipTrivia source with
  | [] => some []
  | c :: rest =>
      match _ : lexToken c rest with
      | none => none
      | some (lexeme, after) => (lex after).map (lexeme :: ·)
termination_by source.length
decreasing_by
  rename_i hskip htoken
  have hle := length_skipTrivia_le source
  rw [hskip, List.length_cons] at hle
  exact Nat.lt_of_lt_of_le (Nat.lt_succ_of_le (length_of_lexToken htoken)) hle

/-- The lexer gives the lexemes of the pass, unless one of them is not sound. -/
theorem lex_eq (source : List Char) (offset : Nat) :
    lex source =
      if ((tokensFrom offset source).map Token.lexeme).all Lexeme.isSound then
        some ((tokensFrom offset source).map Token.lexeme)
      else none := by
  fun_induction lex source generalizing offset with
  | case1 source h =>
      rcases tokensFrom_skipTrivia offset source with ⟨skipped, _, htokens⟩
      rw [htokens, h]
      rfl
  | case2 source c rest h htoken =>
      rcases takesFrom_of_skipTrivia h offset with ⟨start, htokens, htakes⟩
      rw [htoken] at htakes
      rcases htakes with ⟨token, tokens, hfirst, hunsound⟩
      rw [htokens, hfirst]
      simp [hunsound]
  | case3 source c rest h lexeme after htoken ih =>
      rcases takesFrom_of_skipTrivia h offset with ⟨start, htokens, htakes⟩
      rw [htoken] at htakes
      rcases htakes with ⟨hsound, consumed, _, hfirst⟩
      rw [htokens, hfirst, ih (start + Text.byteLength consumed)]
      simp only [List.map_cons, List.all_cons, hsound, Bool.true_and]
      split <;> rfl

theorem lex_eq_some_iff {source : List Char} {lexemes : List Lexeme} :
    lex source = some lexemes ↔
      (tokens source).map Token.lexeme = lexemes ∧ ∀ lexeme ∈ lexemes, lexeme.isSound = true := by
  rw [lex_eq source 0, ← tokens_eq_tokensFrom, Option.ite_none_right_eq_some, List.all_eq_true,
    Option.some_inj]
  constructor
  · rintro ⟨hsound, rfl⟩
    exact ⟨rfl, hsound⟩
  · rintro ⟨rfl, hsound⟩
    exact ⟨hsound, rfl⟩

end Source
end ScopeLisp
