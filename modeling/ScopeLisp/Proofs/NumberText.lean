import ScopeLisp.Proofs.RoundTrip
import ScopeLisp.Proofs.ShortestDecimals

/-!
# Numbers as text

## Words

A word is one token, which is a number when the word is a numeral and an atom
when there is something else than digits and dots in it.

## Printed numbers

Finite numbers without a sign are printed as numerals, with the fewest digits
that read back.  The minus sign and the letters of all other numbers make their
text the name of an atom.
-/

namespace ScopeLisp

theorem Decimal.count_dot_positional (d : Decimal) : d.positional.count '.' ≤ 1 := by
  have hdigits (n : Nat) : (Nat.toDigits 10 n).count '.' = 0 :=
    Source.count_dot_of_digits fun c hc => Nat.isDigit_of_mem_toDigits (by decide) (by decide) hc
  have hpadded (width n : Nat) : (paddedDigits width n).count '.' = 0 :=
    Source.count_dot_of_digits fun c hc => isDigit_of_mem_paddedDigits width n hc
  simp only [positional]
  split
  · rw [hdigits]
    exact Nat.zero_le 1
  · rw [List.count_append, hdigits, List.count_cons_self, hpadded]

namespace Source

/-!
# Words

A word that is a source by itself is read as the lexeme that it spells.
-/

section Word

variable {word : List Char} (hne : word ≠ []) (hword : ∀ c ∈ word, isDelimiter c = false)
include hne hword

theorem tokens_word : tokens word = [⟨.ofWord word, 0, 0 + Text.byteLength word⟩] := by
  have htokens := tokensFrom_word hne hword endsWord_nil 0
  rw [List.append_nil] at htokens
  exact htokens

theorem parse_of_ofWord_num {value : Binary32} (h : Lexeme.ofWord word = .num value) :
    parse word = .ok (.num value) := by
  rw [parse, Reader.next, Reader.ofSource, tokens_word hne hword, h]
  rfl

theorem parse_of_ofWord_atom {name : String} (h : Lexeme.ofWord word = .atom name) :
    parse word = .ok (.atom name) := by
  rw [parse, Reader.next, Reader.ofSource, tokens_word hne hword, h]
  rfl

end Word

theorem isDelimiter_of_all {word : List Char} (h : (word.all fun c => !isDelimiter c) = true) :
    ∀ c ∈ word, isDelimiter c = false := by
  simpa using h

theorem parse_positional (d : Decimal) : parse d.positional = .ok (.num (.ofDecimal d)) :=
  parse_of_ofWord_num (Decimal.positional_ne_nil d)
    (fun c hc => isDelimiter_of_isNumeric (isNumeric_of_mem_positional d c hc))
    (ofWord_positional d)

end Source

namespace Binary32

/-!
# Names

A number that is not finite or has a sign is printed with a character that
stands in no numeral.
-/

theorem magnitudeChars_of_not_finite {x : Binary32} (hNaN : x.isNaN = false)
    (hx : x.isFinite = false) : x.magnitudeChars = ['i', 'n', 'f'] := by
  have hinfinite : x.isInfinite = true := by
    simp only [isNaN, isFinite, isInfinite, decide_eq_false_iff_not, decide_eq_true_eq] at *
    omega
  rw [magnitudeChars, if_pos hinfinite]

theorem isDelimiter_of_mem_magnitudeChars {x : Binary32} (hNaN : x.isNaN = false) :
    ∀ c ∈ x.magnitudeChars, Source.isDelimiter c = false := by
  cases hx : x.isFinite with
  | true =>
      rcases exists_shortestDecimal hx with ⟨d, hd, _⟩
      rw [magnitudeChars_of_shortestDecimal hx hd]
      intro c hc
      exact Source.isDelimiter_of_isNumeric (Source.isNumeric_of_mem_positional d c hc)
  | false =>
      rw [magnitudeChars_of_not_finite hNaN hx]
      exact Source.isDelimiter_of_all rfl

/-- What is not finite or has a sign is printed with a character that stands in no numeral. -/
theorem chars_of_other {x : Binary32} (h : ¬(x.isFinite = true ∧ x.isNegative = false)) :
    x.chars ≠ [] ∧ (∀ c ∈ x.chars, Source.isDelimiter c = false) ∧
      ∃ c ∈ x.chars, Source.isNumeric c = false := by
  unfold chars
  cases hNaN : x.isNaN with
  | true =>
      rw [if_pos rfl]
      exact ⟨List.cons_ne_nil _ _, Source.isDelimiter_of_all rfl, 'N', List.mem_cons_self, rfl⟩
  | false =>
      rw [if_neg Bool.false_ne_true]
      cases hsign : x.isNegative with
      | true =>
          rw [if_pos rfl]
          refine ⟨List.cons_ne_nil _ _, ?_, '-', List.mem_cons_self, rfl⟩
          exact List.forall_mem_cons.mpr ⟨rfl, isDelimiter_of_mem_magnitudeChars hNaN⟩
      | false =>
          have hx : x.isFinite = false := Bool.eq_false_iff.mpr fun hx => h ⟨hx, hsign⟩
          rw [if_neg Bool.false_ne_true, magnitudeChars_of_not_finite hNaN hx]
          exact ⟨List.cons_ne_nil _ _, Source.isDelimiter_of_all rfl, 'i', List.mem_cons_self, rfl⟩

end Binary32

namespace Source

theorem ofWord_of_not_numeric {word : List Char} (h : ∃ c ∈ word, isNumeric c = false) :
    Lexeme.ofWord word = .atom (String.ofList word) := by
  have hall : word.all isNumeric = false := List.all_eq_false.mpr (by simpa using h)
  simp [Lexeme.ofWord, hall]

/--
Numbers are read as they are printed.  A finite number with the sign bit clear
is printed as a word of digits with at most one dot, which reads as the number
itself and has the fewest digits of all decimals that do.  Any other number is
printed as a word that reads as an atom.  A decimal reads as a number that is
nearest to it, unless it is beyond all finite numbers.
-/
theorem numbers_read_as_printed (x : Binary32) :
    let word := (Expr.num x).chars
    (x.isFinite = true ∧ x.isNegative = false →
      word ≠ [] ∧ (∀ c ∈ word, c.isDigit = true ∨ c = '.') ∧ word.count '.' ≤ 1 ∧
      parse word = .ok (.num x) ∧
      ∃ d : Decimal, word = d.positional ∧ Binary32.IsShortest d x) ∧
    (¬(x.isFinite = true ∧ x.isNegative = false) →
      word ≠ [] ∧ (∀ c ∈ word, isDelimiter c = false) ∧
      parse word = .ok (.atom (String.ofList word))) ∧
    ∀ d : Decimal, parse d.positional = .ok (.num (.ofDecimal d)) ∧
      ((Binary32.ofDecimal d).isFinite = true → ∀ y : Binary32, y.isFinite = true →
        |(Binary32.ofDecimal d).size - d.value| ≤ |y.size - d.value|) := by
  intro word
  refine ⟨?_, ?_, ?_⟩
  · rintro ⟨hx, hsign⟩
    rcases Binary32.isShortest_shortestDecimal hx hsign with ⟨d, hd, hshortest⟩
    have hchars : word = d.positional := Binary32.chars_of_shortestDecimal hx hsign hd
    rw [hchars]
    refine ⟨Decimal.positional_ne_nil d, fun c hc => Decimal.mem_positional hc,
      d.count_dot_positional, ?_, d, rfl, hshortest⟩
    rw [parse_positional, hshortest.reads]
  · intro hother
    rcases Binary32.chars_of_other hother with ⟨hne, hword, hname⟩
    exact ⟨hne, hword, parse_of_ofWord_atom hne hword (ofWord_of_not_numeric hname)⟩
  · intro d
    exact ⟨parse_positional d, fun hfinite y _ => Binary32.ofDecimal_nearest hfinite y⟩

def largest : Binary32 := ⟨0x7F7FFFFF⟩

def negativeZero : Binary32 := ⟨0x80000000⟩

theorem numbers_read_as_printed_largest :
    (largest.isFinite = true ∧ largest.isNegative = false ∧
      (Expr.num largest).toText = "340282350000000000000000000000000000000" ∧
      parse (Expr.num largest).chars = .ok (.num largest)) ∧
    ¬(negativeZero.isFinite = true ∧ negativeZero.isNegative = false) ∧
    parse (Expr.num negativeZero).chars = .ok (.atom "-0") := by
  have hlargest : largest.isFinite = true ∧ largest.isNegative = false := by decide
  have hzero : ¬(negativeZero.isFinite = true ∧ negativeZero.isNegative = false) := by decide
  have hname : String.ofList (Expr.num negativeZero).chars = "-0" := by decide +kernel
  refine ⟨⟨hlargest.1, hlargest.2, by decide +kernel, ?_⟩, hzero, ?_⟩
  · exact ((numbers_read_as_printed largest).1 hlargest).2.2.2.1
  · rw [← hname]
    exact ((numbers_read_as_printed negativeZero).2.1 hzero).2.2

end Source
end ScopeLisp
