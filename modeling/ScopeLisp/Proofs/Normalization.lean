import ScopeLisp.Proofs.RoundTrip

/-!
# Printing what was read

## What reading accepts

Not every expression can be read from a source.  Atoms are words, so they hold
no delimiter and something else than digits and dots.  In a string a backslash
stands for nothing by itself: it escapes a double quote, or it ends the source
and is dropped.  A numeral has no sign, and it is never a NaN.

## Normal forms

A numeral may be beyond all finite numbers.  It is then read as infinity, which
is printed as a word that reads as an atom.  Nothing else changes when what was
read is printed and read again.
-/

namespace ScopeLisp
namespace Expr

/-- Whether an expression is made of what tokens of a source can say. -/
def isReadable : Expr → Bool :=
  isSpelled fun value => !value.isNegative && !value.isNaN

mutual

/-- The expression with an atom in place of each infinite number. -/
def infinityAsAtom : Expr → Expr
  | .num value => if value = .infinity false then .atom "inf" else .num value
  | .quoted inner => .quoted (infinityAsAtom inner)
  | .list items => .list (infinityAsAtomAll items)
  | e => e

def infinityAsAtomAll : List Expr → List Expr
  | [] => []
  | e :: rest => infinityAsAtom e :: infinityAsAtomAll rest

end

end Expr

/-!
# Numbers that are read

A decimal reads as a number without a sign, which is finite or infinity.
-/

namespace Binary32

theorem nearestMagnitude_lt (n d : Nat) : nearestMagnitude n d < signWeight :=
  Nat.lt_of_le_of_lt (Nat.min_le_right ..) (by decide)

theorem isNegative_ofDecimal (d : Decimal) : (ofDecimal d).isNegative = false :=
  isNegative_ofMagnitude false (nearestMagnitude_lt _ _)

theorem isNaN_ofDecimal (d : Decimal) : (ofDecimal d).isNaN = false := by
  rw [isNaN, ofDecimal, nearest, magnitude_ofMagnitude false (nearestMagnitude_lt _ _)]
  exact decide_eq_false (Nat.not_lt_of_le (Nat.min_le_right ..))

theorem isFinite_of_ne_infinity {x : Binary32} (hsign : x.isNegative = false)
    (hNaN : x.isNaN = false) (hne : x ≠ infinity false) : x.isFinite = true := by
  have hle : x.magnitude ≤ infinityMagnitude := Nat.le_of_not_lt (of_decide_eq_false hNaN)
  have hmagnitude : x.magnitude ≠ infinityMagnitude := by
    intro heq
    apply hne
    rw [infinity, ← heq, ← hsign, ofMagnitude_isNegative_magnitude]
  exact decide_eq_true (Nat.lt_of_le_of_ne hle hmagnitude)

theorem chars_infinity : (infinity false).chars = ['i', 'n', 'f'] := by
  decide

end Binary32

/-!
# Tokens of a source

What a sound token of a source says can stand in a readable expression.
-/

namespace Source

def Lexeme.isReadable : Lexeme → Bool
  | .atom name => (Expr.atom name).isReadable
  | .str text => (Expr.str text).isReadable
  | .num value => (Expr.num value).isReadable
  | _ => true

theorem ne_backslash_of_lexText {source text rest : List Char}
    (h : lexText source = some (text, rest)) : ∀ c ∈ text, c ≠ '\\' := by
  -- The cases are those of the lexer: only the escaped quote and plain characters say anything.
  fun_induction lexText source generalizing text with
  | case1 =>
      cases h
      simp
  | case2 =>
      cases h
      simp
  | case3 =>
      cases h
      simp
  | case4 source _ ih =>
      rcases Option.map_eq_some_iff.mp h with ⟨⟨tail, last⟩, htail, heq⟩
      cases heq
      exact List.forall_mem_cons.mpr ⟨by decide, ih htail⟩
  | case5 =>
      cases h
  | case6 c source _ hslash ih =>
      rcases Option.map_eq_some_iff.mp h with ⟨⟨tail, last⟩, htail, heq⟩
      cases heq
      exact List.forall_mem_cons.mpr ⟨hslash, ih htail⟩

theorem isReadable_of_lexWord {word : List Char} {lexeme : Lexeme}
    (hword : ∀ c ∈ word, isDelimiter c = false) (h : lexWord word = some lexeme) :
    lexeme.isReadable = true := by
  unfold lexWord at h
  split at h
  · split at h
    · cases h
      simp [Lexeme.isReadable, Expr.isReadable, Expr.isSpelled, numeralValue,
        Binary32.isNegative_ofDecimal, Binary32.isNaN_ofDecimal]
    · cases h
  · rename_i hnumeric
    cases h
    rw [List.all_eq_not_any_not, Bool.not_eq_true, Bool.not_eq_false'] at hnumeric
    simpa [Lexeme.isReadable, Expr.isReadable, Expr.isSpelled, hnumeric] using hword

theorem isReadable_of_lexToken {c : Char} (hblank : Text.isBlank c = false) (hcomment : c ≠ ';')
    {rest after : List Char} {lexeme : Lexeme} (h : lexToken c rest = some (lexeme, after)) :
    lexeme.isReadable = true := by
  unfold lexToken at h
  split at h
  · cases h
    rfl
  split at h
  · cases h
    rfl
  split at h
  · cases h
    rfl
  split at h
  · cases h
  split at h
  · rcases Option.map_eq_some_iff.mp h with ⟨⟨text, last⟩, htext, heq⟩
    cases heq
    simpa [Lexeme.isReadable, Expr.isReadable, Expr.isSpelled] using ne_backslash_of_lexText htext
  · rename_i hopen hclose hquote hhash htext
    rcases Option.map_eq_some_iff.mp h with ⟨word, hword, heq⟩
    cases heq
    refine isReadable_of_lexWord (List.forall_mem_cons.mpr ⟨?_, ?_⟩) hword
    · exact isDelimiter_eq_false_iff.mpr ⟨hblank, hopen, hclose, hquote, htext, hhash, hcomment⟩
    · intro d hd
      simpa using List.all_eq_true.mp List.all_takeWhile d hd

theorem isReadable_of_lex {source : List Char} {lexemes : List Lexeme}
    (h : lex source = some lexemes) : ∀ lexeme ∈ lexemes, lexeme.isReadable = true := by
  fun_induction lex source generalizing lexemes with
  | case1 =>
      cases h
      simp
  | case2 =>
      cases h
  | case3 source c rest hskip lexeme after htoken ih =>
      rcases Option.map_eq_some_iff.mp h with ⟨later, hlater, rfl⟩
      rcases skipTrivia_cons hskip with ⟨hblank, hcomment⟩
      exact List.forall_mem_cons.mpr ⟨isReadable_of_lexToken hblank hcomment htoken, ih hlater⟩

end Source

/-!
# Expressions that are read

An expression is readable if its tokens are.
-/

namespace Expr

mutual

theorem isReadable_of_lexemes (e : Expr) (htree : e.isTree = true)
    (h : ∀ lexeme ∈ e.lexemes, lexeme.isReadable = true) : e.isReadable = true := by
  cases e with
  | atom name => exact h _ List.mem_cons_self
  | str text => exact h _ List.mem_cons_self
  | num value => exact h _ List.mem_cons_self
  | quoted inner =>
      apply isReadable_of_lexemes inner htree
      intro lexeme hmem
      exact h lexeme (List.mem_cons_of_mem _ hmem)
  | list items =>
      apply isSpelledAll_iff.mpr
      refine isReadable_of_lexemesAll items htree fun lexeme hmem => h lexeme ?_
      exact List.mem_append_left _ (List.mem_cons_of_mem _ hmem)
  | native _ _ _ => cases htree
  | lambda _ _ _ => cases htree
  | null => cases htree

theorem isReadable_of_lexemesAll (items : List Expr) (htree : isTreeAll items = true)
    (h : ∀ lexeme ∈ lexemesAll items, lexeme.isReadable = true) :
    ∀ e ∈ items, e.isReadable = true := by
  cases items with
  | nil => exact List.forall_mem_nil _
  | cons e rest =>
      rcases Bool.and_eq_true_iff.mp htree with ⟨he, hrest⟩
      rcases List.forall_mem_append.mp h with ⟨hfirst, hlater⟩
      exact List.forall_mem_cons.mpr
        ⟨isReadable_of_lexemes e he hfirst, isReadable_of_lexemesAll rest hrest hlater⟩

end

/-!
# Infinite numbers as atoms

An atom in place of an infinite number changes neither the printed form nor the
nesting.  Nothing else stands between what is read and what is printable.
-/

mutual

theorem chars_infinityAsAtom (e : Expr) : e.infinityAsAtom.chars = e.chars := by
  cases e with
  | num value =>
      rw [infinityAsAtom]
      split
      · rename_i hvalue
        rw [hvalue]
        exact Binary32.chars_infinity.symm
      · rfl
  | quoted inner =>
      rw [infinityAsAtom, chars_quoted, chars_quoted, chars_infinityAsAtom inner]
  | list items =>
      rw [infinityAsAtom, chars_list, chars_list, charsAll_infinityAsAtomAll items]
  | _ => rfl

theorem charsAll_infinityAsAtomAll (items : List Expr) :
    charsAll (infinityAsAtomAll items) = charsAll items := by
  cases items with
  | nil => rfl
  | cons e rest =>
      rw [infinityAsAtomAll, charsAll_cons, charsAll_cons, chars_infinityAsAtom e,
        charsAll_infinityAsAtomAll rest]

end

mutual

theorem nesting_infinityAsAtom (e : Expr) : e.infinityAsAtom.nesting = e.nesting := by
  cases e with
  | num value =>
      rw [infinityAsAtom]
      split <;> rfl
  | quoted inner =>
      rw [infinityAsAtom, nesting, nesting, nesting_infinityAsAtom inner]
  | list items =>
      rw [infinityAsAtom, nesting, nesting, nestingAll_infinityAsAtomAll items]
  | _ => rfl

theorem nestingAll_infinityAsAtomAll (items : List Expr) :
    nestingAll (infinityAsAtomAll items) = nestingAll items := by
  cases items with
  | nil => rfl
  | cons e rest =>
      rw [infinityAsAtomAll, nestingAll, nestingAll, nesting_infinityAsAtom e,
        nestingAll_infinityAsAtomAll rest]

end

mutual

/-- Infinity is all that stands between what is read and what is printable. -/
theorem isPrintable_infinityAsAtom (e : Expr) (he : e.isReadable = true) :
    e.infinityAsAtom.isPrintable = true := by
  cases e with
  | atom name => exact (isSpelled_atom _ _ name).trans he
  | str text => exact (isSpelled_str _ _ text).trans he
  | num value =>
      rw [infinityAsAtom]
      split
      · decide
      · rename_i hne
        rcases Bool.and_eq_true_iff.mp he with ⟨hsign, hNaN⟩
        have hfinite : value.isFinite = true :=
          Binary32.isFinite_of_ne_infinity (by simpa using hsign) (by simpa using hNaN) hne
        exact Bool.and_eq_true_iff.mpr ⟨hfinite, hsign⟩
  | quoted inner => exact isPrintable_infinityAsAtom inner he
  | list items =>
      apply isSpelledAll_iff.mpr
      exact isPrintable_infinityAsAtomAll items (isSpelledAll_iff.mp he)
  | native _ _ _ => cases he
  | lambda _ _ _ => cases he
  | null => cases he

theorem isPrintable_infinityAsAtomAll (items : List Expr) (h : ∀ e ∈ items, e.isReadable = true) :
    ∀ e ∈ infinityAsAtomAll items, e.isPrintable = true := by
  cases items with
  | nil => exact List.forall_mem_nil _
  | cons e rest =>
      rcases List.forall_mem_cons.mp h with ⟨he, hrest⟩
      exact List.forall_mem_cons.mpr
        ⟨isPrintable_infinityAsAtom e he, isPrintable_infinityAsAtomAll rest hrest⟩

end

end Expr

namespace Source

theorem isReadable_of_parseProgram {source : List Char} {es : List Expr}
    (h : parseProgram source = .ok es) :
    ∀ e ∈ es, e.isReadable = true ∧ e.nesting ≤ maxNesting := by
  have hnothing : Fits [] := trivial
  rcases readAll_reads hnothing h with ⟨later, hes, htokens, hlater⟩
  cases hes
  have hlex : lex source = some (Expr.lexemesAll later) :=
    lex_eq_some_iff.mpr ⟨htokens, Expr.isSound_of_mem_lexemesAll _⟩
  have htree : Expr.isTreeAll later = true :=
    Expr.isTreeAll_iff.mpr fun e he => (hlater e he).1
  have hreadable := Expr.isReadable_of_lexemesAll later htree (isReadable_of_lex hlex)
  intro e he
  exact ⟨hreadable e he, (hlater e he).2⟩

theorem parse_chars_of_isReadable {e : Expr} (he : e.isReadable = true)
    (hnesting : e.nesting ≤ maxNesting) : parse e.chars = .ok e.infinityAsAtom := by
  have hprintable := Expr.isPrintable_infinityAsAtom e he
  have hfits : e.infinityAsAtom.nesting ≤ maxNesting := by
    rw [Expr.nesting_infinityAsAtom]
    exact hnesting
  rw [← Expr.chars_infinityAsAtom e]
  exact parse_of_isPrintable hprintable hfits

/--
Printing normalizes whatever can be read.  An expression of a program that is
read is made of words, strings without a backslash and numbers without a sign,
and it nests within the bound.  Its printed form reads as the same expression
with an atom in place of each infinite number, which is printed alike.
-/
theorem parseProgram_normalized {source : List Char} {es : List Expr}
    (h : parseProgram source = .ok es) :
    ∀ e ∈ es, e.isReadable = true ∧ e.nesting ≤ maxNesting ∧
      parse e.chars = .ok e.infinityAsAtom ∧ e.infinityAsAtom.chars = e.chars := by
  intro e he
  rcases isReadable_of_parseProgram h e he with ⟨hreadable, hnesting⟩
  exact ⟨hreadable, hnesting, parse_chars_of_isReadable hreadable hnesting,
    Expr.chars_infinityAsAtom e⟩

/-- `('999…9 x) "a\"\`: a numeral beyond all numbers, and a string that the source breaks off. -/
def overflowing : List Char :=
  ['(', '\''] ++ List.replicate 39 '9' ++ [' ', 'x', ')', ' ', '"', 'a', '\\', '"', '\\']

theorem parseProgram_normalized_overflowing :
    let e : Expr := .list [.quoted (.num (.infinity false)), .atom "x"]
    parseProgram overflowing = .ok [e, .str "a\""] ∧ e.isReadable = true ∧
    parse e.chars = .ok (.list [.quoted (.atom "inf"), .atom "x"]) ∧
    (Expr.list [.quoted (.atom "inf"), .atom "x"]).chars = e.chars := by
  intro e
  have htokens : tokens overflowing =
      [⟨.openList, 0, 1⟩, ⟨.quote, 1, 2⟩, ⟨.num (.infinity false), 2, 41⟩, ⟨.atom "x", 42, 43⟩,
        ⟨.closeList, 43, 44⟩, ⟨.str "a\"", 45, 50⟩] := by
    decide +kernel
  have hparse : parseProgram overflowing = .ok [e, .str "a\""] := by
    rw [parseProgram, htokens]
    rfl
  rcases parseProgram_normalized hparse e List.mem_cons_self with ⟨hreadable, _, hread, hchars⟩
  exact ⟨hparse, hreadable, hread, hchars⟩

end Source
end ScopeLisp
