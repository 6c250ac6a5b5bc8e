import ScopeLisp.Expr.Printer
import ScopeLisp.Proofs.Grammar

/-!
# Reading what was printed

## Printable expressions

An expression is printable when its printed form says all of it: its atoms are
words that are no numbers, no string holds a backslash, no number has a sign,
and there are no functions and no null value.

## Two outcomes

The printed form of a printable expression reads back as the expression, unless
it nests too deeply.  Then reading fails where the first list or quote beyond
the bound is opened.
-/

namespace ScopeLisp
namespace Expr

mutual

/-- Whether an expression can be spelled, as far as its numbers pass a check. -/
def isSpelled (number : Binary32 → Bool) : Expr → Bool
  | .atom name =>
      name.toList.all (fun c => !Source.isDelimiter c) &&
        name.toList.any (fun c => !Source.isNumeric c)
  | .str text => text.toList.all (· != '\\')
  | .num value => number value
  | .quoted inner => isSpelled number inner
  | .list items => isSpelledAll number items
  | _ => false

def isSpelledAll (number : Binary32 → Bool) : List Expr → Bool
  | [] => true
  | e :: rest => isSpelled number e && isSpelledAll number rest

end

/-- Whether the printed form of an expression says all of it. -/
def isPrintable : Expr → Bool :=
  isSpelled fun value => value.isFinite && !value.isNegative

mutual

theorem isTree_of_isSpelled {number : Binary32 → Bool} (e : Expr)
    (he : e.isSpelled number = true) : e.isTree = true := by
  cases e with
  | atom name => rfl
  | str text => rfl
  | num value => rfl
  | quoted inner => exact isTree_of_isSpelled inner he
  | list items => exact isTreeAll_of_isSpelledAll items he
  | native _ _ _ => cases he
  | lambda _ _ _ => cases he
  | null => cases he

theorem isTreeAll_of_isSpelledAll {number : Binary32 → Bool} (items : List Expr)
    (h : isSpelledAll number items = true) : isTreeAll items = true := by
  cases items with
  | nil => rfl
  | cons e rest =>
      rcases Bool.and_eq_true_iff.mp h with ⟨he, hrest⟩
      exact Bool.and_eq_true_iff.mpr
        ⟨isTree_of_isSpelled e he, isTreeAll_of_isSpelledAll rest hrest⟩

end

theorem isSpelled_atom (number number' : Binary32 → Bool) (name : String) :
    (Expr.atom name).isSpelled number = (Expr.atom name).isSpelled number' := rfl

theorem isSpelled_str (number number' : Binary32 → Bool) (text : String) :
    (Expr.str text).isSpelled number = (Expr.str text).isSpelled number' := rfl

theorem isSpelledAll_iff {number : Binary32 → Bool} {items : List Expr} :
    isSpelledAll number items = true ↔ ∀ e ∈ items, e.isSpelled number = true := by
  induction items with
  | nil =>
      simp [isSpelledAll]
  | cons e rest ih =>
      simp [isSpelledAll, ih]

/-!
# The text of a list

Between the brackets of a printed list the items stand one space apart.
-/

def itemsText (items : List Expr) : List Char :=
  spaced (charsAll items)

theorem itemsText_cons (e second : Expr) (items : List Expr) :
    itemsText (e :: second :: items) = e.chars ++ ' ' :: itemsText (second :: items) := rfl

theorem byteLength_itemsText (e second : Expr) (items : List Expr) :
    Text.byteLength (itemsText (e :: second :: items)) =
      Text.byteLength e.chars + 1 + Text.byteLength (itemsText (second :: items)) := by
  rw [itemsText_cons, Text.byteLength_append, Text.byteLength_cons, ← Nat.add_assoc]
  rfl

theorem chars_list_append (items : List Expr) (rest : List Char) :
    (Expr.list items).chars ++ rest = '(' :: (itemsText items ++ ')' :: rest) := by
  rw [chars_list, List.append_assoc, List.cons_append]
  rfl

theorem byteLength_list (items : List Expr) :
    Text.byteLength (Expr.list items).chars = 1 + Text.byteLength (itemsText items) + 1 := by
  rw [chars_list, Text.byteLength_append, Text.byteLength_cons]
  rfl

end Expr

namespace Source

/-!
# Tokens of the printed form

Atoms and numbers are printed as words, and escaping a string is undone by the
lexer.
-/

theorem isDelimiter_of_isNumeric {c : Char} (h : isNumeric c = true) : isDelimiter c = false := by
  rcases Bool.or_eq_true_iff.mp h with hdigit | hdot
  · have hrange : 48 ≤ c.toNat ∧ c.toNat ≤ 57 := Char.isDigit_iff_toNat.mp hdigit
    have hblank : Text.isBlank c = false := by
      simp only [Text.isBlank, Text.inRanges, Text.blankRanges, List.any_cons, List.any_nil,
        Bool.or_eq_false_iff, Bool.and_eq_false_iff, decide_eq_false_iff_not, and_true]
      omega
    refine isDelimiter_eq_false_iff.mpr ⟨hblank, ?_, ?_, ?_, ?_, ?_, ?_⟩
    all_goals
      intro heq
      subst heq
      exact absurd hdigit (by decide)
  · have heq : c = '.' := of_decide_eq_true hdot
    subst heq
    decide

theorem lexText_escaped (text rest : List Char) (h : ∀ c ∈ text, c ≠ '\\') :
    lexText (text.flatMap Expr.escapeQuote ++ '"' :: rest) = some (text, rest) := by
  induction text with
  | nil =>
      exact lexText_quote rest
  | cons c text ih =>
      rcases List.forall_mem_cons.mp h with ⟨hc, htext⟩
      rw [List.flatMap_cons, List.append_assoc]
      by_cases hquote : c = '"'
      · subst hquote
        show (lexText (text.flatMap Expr.escapeQuote ++ '"' :: rest)).map _ = _
        rw [ih htext]
        rfl
      · rw [Expr.escapeQuote, if_neg hquote, List.singleton_append, lexText_plain hquote hc,
          ih htext]
        rfl

theorem ofWord_atom {name : String} (h : name.toList.any (fun c => !isNumeric c) = true) :
    Lexeme.ofWord name.toList = .atom name := by
  have hall : name.toList.all isNumeric = false := by
    rw [List.all_eq_not_any_not, h]
    rfl
  simp [Lexeme.ofWord, hall]

theorem isNumeric_of_mem_positional (d : Decimal) : ∀ c ∈ d.positional, isNumeric c = true := by
  intro c hc
  rcases Decimal.mem_positional hc with hdigit | hdot
  · simp [isNumeric, hdigit]
  · simp [isNumeric, hdot]

theorem ofWord_positional (d : Decimal) : Lexeme.ofWord d.positional = .num (.ofDecimal d) := by
  simp [Lexeme.ofWord, List.all_eq_true.mpr (isNumeric_of_mem_positional d),
    Binary32.ofNumeral?_positional]

/-- A number with the sign bit clear is printed as a word that reads as the number. -/
theorem ofWord_chars {x : Binary32} (hfinite : x.isFinite = true) (hsign : x.isNegative = false) :
    x.chars ≠ [] ∧ (∀ c ∈ x.chars, isNumeric c = true) ∧ Lexeme.ofWord x.chars = .num x := by
  rcases Binary32.exists_chars_eq_positional hfinite hsign with ⟨d, hchars, hread⟩
  rw [hchars, ofWord_positional, hread]
  exact ⟨Decimal.positional_ne_nil d, isNumeric_of_mem_positional d, rfl⟩

theorem endsWord_space (rest : List Char) : EndsWord (' ' :: rest) := by
  intro c hc
  cases hc
  decide

theorem endsWord_close (rest : List Char) : EndsWord (')' :: rest) := by
  intro c hc
  cases hc
  decide

/-!
# One expression in front of a text

The printed form of an expression has the tokens of the expression, whatever
ends a word behind it.
-/

theorem tokensFrom_atom {name : String} (he : (Expr.atom name).isPrintable = true)
    (offset : Nat) {rest : List Char} (hrest : EndsWord rest) :
    tokensFrom offset (name.toList ++ rest) =
      ⟨.atom name, offset, offset + Text.byteLength name.toList⟩ ::
        tokensFrom (offset + Text.byteLength name.toList) rest := by
  rcases Bool.and_eq_true_iff.mp he with ⟨hword, hatom⟩
  have hne : name.toList ≠ [] := by
    intro hnil
    rw [hnil] at hatom
    cases hatom
  have hdelimiter : ∀ c ∈ name.toList, isDelimiter c = false := by
    simpa using hword
  rw [tokensFrom_word hne hdelimiter hrest, ofWord_atom hatom]

theorem tokensFrom_number {value : Binary32} (he : (Expr.num value).isPrintable = true)
    (offset : Nat) {rest : List Char} (hrest : EndsWord rest) :
    tokensFrom offset (value.chars ++ rest) =
      ⟨.num value, offset, offset + Text.byteLength value.chars⟩ ::
        tokensFrom (offset + Text.byteLength value.chars) rest := by
  rcases Bool.and_eq_true_iff.mp he with ⟨hfinite, hsign⟩
  rcases ofWord_chars hfinite (by simpa using hsign) with ⟨hne, hnumeric, hword⟩
  rw [tokensFrom_word hne (fun c hc => isDelimiter_of_isNumeric (hnumeric c hc)) hrest, hword]

theorem tokensFrom_string {text : String} (he : (Expr.str text).isPrintable = true)
    (offset : Nat) (rest : List Char) :
    tokensFrom offset ((Expr.str text).chars ++ rest) =
      ⟨.str text, offset, offset + Text.byteLength (Expr.str text).chars⟩ ::
        tokensFrom (offset + Text.byteLength (Expr.str text).chars) rest := by
  have hslash : ∀ c ∈ text.toList, c ≠ '\\' := by
    simpa [Expr.isPrintable, Expr.isSpelled] using he
  rcases tokensFrom_text (lexText_escaped text.toList rest hslash) offset with
    ⟨consumed, hconsumed, htokens⟩
  have hclosed : text.toList.flatMap Expr.escapeQuote ++ ['"'] = consumed := by
    rw [← List.append_cancel_right_eq (text.toList.flatMap Expr.escapeQuote ++ ['"']) rest consumed,
      ← hconsumed, List.append_assoc]
    rfl
  have hchars : (Expr.str text).chars = '"' :: consumed := by
    rw [← hclosed]
    rfl
  rw [hchars, List.cons_append, ← hconsumed, htokens, String.ofList_toList]

mutual

theorem tokensFrom_chars (e : Expr) (he : e.isPrintable = true) (offset : Nat) {rest : List Char}
    (hrest : EndsWord rest) :
    ∃ front, front.map Token.lexeme = e.lexemes ∧
      tokensFrom offset (e.chars ++ rest) =
        front ++ tokensFrom (offset + Text.byteLength e.chars) rest := by
  cases e with
  | atom name =>
      exact ⟨[_], rfl, tokensFrom_atom he offset hrest⟩
  | str text =>
      exact ⟨[_], rfl, tokensFrom_string he offset rest⟩
  | num value =>
      exact ⟨[_], rfl, tokensFrom_number he offset hrest⟩
  | quoted inner =>
      rcases tokensFrom_chars inner he (offset + 1) hrest with ⟨front, hfront, htokens⟩
      refine ⟨⟨.quote, offset, offset + 1⟩ :: front, congrArg _ hfront, ?_⟩
      rw [Expr.chars_quoted, List.cons_append, tokensFrom_alone rfl, htokens, Text.byteLength_cons,
        ← Nat.add_assoc]
      rfl
  | list items =>
      rcases tokensFrom_charsAll items (Expr.isSpelledAll_iff.mp he) (offset + 1)
        (endsWord_close rest) with ⟨front, hfront, htokens⟩
      let close := offset + 1 + Text.byteLength (Expr.itemsText items)
      refine ⟨⟨.openList, offset, offset + 1⟩ :: front ++ [⟨.closeList, close, close + 1⟩], ?_, ?_⟩
      · rw [List.map_append, List.map_cons, hfront]
        rfl
      · rw [Expr.chars_list_append, tokensFrom_alone rfl, htokens, tokensFrom_alone rfl,
          Expr.byteLength_list, ← Nat.add_assoc, ← Nat.add_assoc, List.append_assoc]
        rfl
  | native _ _ _ => cases he
  | lambda _ _ _ => cases he
  | null => cases he

theorem tokensFrom_charsAll (items : List Expr) (h : ∀ e ∈ items, e.isPrintable = true)
    (offset : Nat) {rest : List Char} (hrest : EndsWord rest) :
    ∃ front, front.map Token.lexeme = Expr.lexemesAll items ∧
      tokensFrom offset (Expr.itemsText items ++ rest) =
        front ++ tokensFrom (offset + Text.byteLength (Expr.itemsText items)) rest := by
  cases items with
  | nil =>
      exact ⟨[], rfl, rfl⟩
  | cons e items =>
      rcases List.forall_mem_cons.mp h with ⟨he, hitems⟩
      cases items with
      | nil =>
          rcases tokensFrom_chars e he offset hrest with ⟨front, hfront, htokens⟩
          exact ⟨front, hfront.trans (List.append_nil _).symm, htokens⟩
      | cons second items =>
          rcases tokensFrom_charsAll (second :: items) hitems
            (offset + Text.byteLength e.chars + 1) hrest with ⟨later, hlater, hrestTokens⟩
          rcases tokensFrom_chars e he offset
            (endsWord_space (Expr.itemsText (second :: items) ++ rest)) with
            ⟨first, hfirst, htokens⟩
          refine ⟨first ++ later, ?_, ?_⟩
          · rw [List.map_append, hfirst, hlater]
            rfl
          · rw [Expr.byteLength_itemsText, Expr.itemsText_cons, List.append_assoc, List.cons_append,
              htokens, tokensFrom_blank (by decide), List.append_assoc, ← Nat.add_assoc,
              ← Nat.add_assoc]
            exact congrArg _ hrestTokens

end

/-!
# Openings

The opening brackets and quotes of a printed form are listed with their nesting
levels and the text before them.
-/

structure Opening where
  level : Nat
  before : List Char

end Source

namespace Expr

mutual

/--
The opening brackets and quotes of the printed form, in reading order, where the
outermost level and the text before the form are given.
-/
def openings (level : Nat) (before : List Char) : Expr → List Source.Opening
  | .quoted inner => ⟨level, before⟩ :: openings (level + 1) (before ++ ['\'']) inner
  | .list items => ⟨level, before⟩ :: openingsAll (level + 1) (before ++ ['(']) items
  | _ => []

def openingsAll (level : Nat) (before : List Char) : List Expr → List Source.Opening
  | [] => []
  | e :: rest => openings level before e ++ openingsAll level (before ++ e.chars ++ [' ']) rest

end

mutual

theorem level_of_mem_openings (e : Expr) (level : Nat) (before : List Char) :
    ∀ opening ∈ e.openings level before, opening.level < level + e.nesting := by
  cases e with
  | quoted inner =>
      intro opening hopening
      rw [nesting]
      rcases List.mem_cons.mp hopening with rfl | hinner
      · show level < level + (inner.nesting + 1)
        omega
      · have hlevel := level_of_mem_openings inner _ _ opening hinner
        omega
  | list items =>
      intro opening hopening
      rw [nesting]
      rcases List.mem_cons.mp hopening with rfl | hitems
      · show level < level + (nestingAll items + 1)
        omega
      · have hlevel := level_of_mem_openingsAll items _ _ opening hitems
        omega
  | _ =>
      simp [openings]

theorem level_of_mem_openingsAll (items : List Expr) (level : Nat) (before : List Char) :
    ∀ opening ∈ openingsAll level before items, opening.level < level + nestingAll items := by
  cases items with
  | nil => simp [openingsAll]
  | cons e rest =>
      intro opening hopening
      rw [nestingAll]
      rcases List.mem_append.mp hopening with hfirst | hrest
      · have hlevel := level_of_mem_openings e _ _ opening hfirst
        omega
      · have hlevel := level_of_mem_openingsAll rest _ _ opening hrest
        omega

end

mutual

theorem text_of_mem_openings (e : Expr) (level : Nat) (before : List Char) :
    ∀ opening ∈ e.openings level before, ∃ c after,
      before ++ e.chars = opening.before ++ c :: after ∧ (c = '(' ∨ c = '\'') := by
  cases e with
  | quoted inner =>
      intro opening hopening
      rcases List.mem_cons.mp hopening with rfl | hinner
      · exact ⟨'\'', inner.chars, rfl, .inr rfl⟩
      · rcases text_of_mem_openings inner _ _ opening hinner with ⟨c, after, htext, hc⟩
        refine ⟨c, after, ?_, hc⟩
        rw [← htext, chars_quoted, List.append_cons]
  | list items =>
      intro opening hopening
      rcases List.mem_cons.mp hopening with rfl | hitems
      · exact ⟨'(', _, congrArg _ (chars_list items), .inl rfl⟩
      · rcases text_of_mem_openingsAll items _ _ opening hitems with ⟨c, after, htext, hc⟩
        refine ⟨c, after ++ [')'], ?_, hc⟩
        calc
          before ++ (Expr.list items).chars = before ++ ['('] ++ itemsText items ++ [')'] := by
            simp [chars_list, itemsText]
          _ = opening.before ++ c :: (after ++ [')']) := by
            rw [htext, List.append_assoc, List.cons_append]
  | _ =>
      simp [openings]

theorem text_of_mem_openingsAll (items : List Expr) (level : Nat) (before : List Char) :
    ∀ opening ∈ openingsAll level before items, ∃ c after,
      before ++ itemsText items = opening.before ++ c :: after ∧ (c = '(' ∨ c = '\'') := by
  cases items with
  | nil => simp [openingsAll]
  | cons e rest =>
      intro opening hopening
      rcases List.mem_append.mp hopening with hfirst | hrest
      · rcases text_of_mem_openings e _ _ opening hfirst with ⟨c, after, htext, hc⟩
        cases rest with
        | nil =>
            exact ⟨c, after, htext, hc⟩
        | cons second rest =>
            refine ⟨c, after ++ ' ' :: itemsText (second :: rest), ?_, hc⟩
            rw [itemsText_cons, ← List.append_assoc, htext, List.append_assoc, List.cons_append]
      · rcases text_of_mem_openingsAll rest _ _ opening hrest with ⟨c, after, htext, hc⟩
        cases rest with
        | nil =>
            cases hrest
        | cons second rest =>
            refine ⟨c, after, ?_, hc⟩
            rw [← htext, itemsText_cons, List.append_assoc, List.append_assoc]
            rfl

end

end Expr

namespace Source

/-!
# Reading the printed form

The printed form of an expression puts it where it stands.
-/

def Opening.firstTooDeep? (openings : List Opening) : Option Opening :=
  openings.find? fun opening => opening.level == maxNesting + 1

namespace Reader

theorem readOn_chars (length : Nat) {e : Expr} (he : e.isPrintable = true) (stack : List Frame)
    (hroom : stack.length + e.nesting ≤ maxNesting) (offset : Nat) {rest : List Char}
    (hrest : EndsWord rest) :
    ∃ last, readOn length stack (tokensFrom offset (e.chars ++ rest)) =
      behind length last (tokensFrom (offset + Text.byteLength e.chars) rest) (place e stack) := by
  rcases tokensFrom_chars e he offset hrest with ⟨front, hfront, htokens⟩
  rw [htokens]
  exact readOn_expr length e (Expr.isTree_of_isSpelled e he) stack hroom hfront _

/-!
# Openings beyond the bound

Reading fails at the first opening beyond the bound.  An expression that fits
is read, so the opening is then in a later one.
-/

/-- Reading that fails at the first of some openings that is beyond the nesting bound. -/
def FailsAt (openings : List Opening) (result : Except Error (Option Expr) × Reader) : Prop :=
  ∃ opening, Opening.firstTooDeep? openings = some opening ∧
    result.1 = .error ⟨.nestingTooDeep maxNesting,
      .ofRange (Text.byteLength opening.before) (Text.byteLength opening.before + 1)⟩

theorem FailsAt.append_left {first : List Opening} {result : Except Error (Option Expr) × Reader}
    (h : FailsAt first result) (second : List Opening) : FailsAt (first ++ second) result := by
  rcases h with ⟨opening, hfirst, hresult⟩
  refine ⟨opening, ?_, hresult⟩
  rw [Opening.firstTooDeep?, List.find?_append, ← Opening.firstTooDeep?, hfirst]
  rfl

theorem FailsAt.append_right {second : List Opening} {result : Except Error (Option Expr) × Reader}
    (h : FailsAt second result) (first : List Opening)
    (hfirst : ∀ opening ∈ first, opening.level < maxNesting + 1) :
    FailsAt (first ++ second) result := by
  rcases h with ⟨opening, hsecond, hresult⟩
  refine ⟨opening, ?_, hresult⟩
  have hnone : first.find? (fun opening => opening.level == maxNesting + 1) = none := by
    rw [List.find?_eq_none]
    intro opening hopening
    simp [Nat.ne_of_lt (hfirst opening hopening)]
  rw [Opening.firstTooDeep?, List.find?_append, hnone]
  exact hsecond

theorem failsAt_descend (length : Nat) {stack : List Frame} (hstack : stack.length ≤ maxNesting)
    (lexeme : Lexeme) (frame : Frame) (before : List Char) (rest : List Token)
    {openings : List Opening}
    (hinside : stack.length < maxNesting → FailsAt openings (readOn length (frame :: stack) rest)) :
    FailsAt (⟨stack.length + 1, before⟩ :: openings)
      (behind length ⟨lexeme, Text.byteLength before, Text.byteLength before + 1⟩ rest
        (descend ⟨lexeme, Text.byteLength before, Text.byteLength before + 1⟩ frame stack)) := by
  by_cases hroom : stack.length < maxNesting
  · rw [descend_of_room hroom]
    exact (hinside hroom).append_right [⟨stack.length + 1, before⟩] (by simpa using hroom)
  · have hlevel : stack.length = maxNesting := Nat.le_antisymm hstack (Nat.le_of_not_lt hroom)
    refine ⟨⟨stack.length + 1, before⟩, ?_, ?_⟩
    · simp [Opening.firstTooDeep?, hlevel]
    · rw [descend, if_neg hroom]
      rfl

theorem byteLength_append_single (text : List Char) {c : Char} (hc : c.utf8Size = 1) :
    Text.byteLength (text ++ [c]) = Text.byteLength text + 1 := by
  rw [Text.byteLength_append, Text.byteLength_cons, hc]
  rfl

mutual

theorem readOn_failsAt (length : Nat) (e : Expr) (he : e.isPrintable = true) (stack : List Frame)
    (hstack : stack.length ≤ maxNesting) (hdeep : maxNesting < stack.length + e.nesting)
    (before : List Char) {rest : List Char} (hrest : EndsWord rest) :
    FailsAt (e.openings (stack.length + 1) before)
      (readOn length stack (tokensFrom (Text.byteLength before) (e.chars ++ rest))) := by
  cases e with
  | quoted inner =>
      rw [Expr.chars_quoted, List.cons_append, tokensFrom_alone rfl, readOn_cons]
      apply failsAt_descend length hstack .quote .quote before
      intro hroom
      rw [Expr.nesting] at hdeep
      have hinner := readOn_failsAt length inner he (.quote :: stack) hroom
        (by rw [List.length_cons]; omega) (before ++ ['\'']) hrest
      rw [byteLength_append_single before rfl] at hinner
      exact hinner
  | list items =>
      rw [Expr.chars_list_append, tokensFrom_alone rfl, readOn_cons]
      apply failsAt_descend length hstack .openList (.list _ []) before
      intro hroom
      rw [Expr.nesting] at hdeep
      have hinner := readOn_failsAt_items length items (Expr.isSpelledAll_iff.mp he)
        (Text.byteLength before) [] stack hroom (by omega) (before ++ ['(']) (endsWord_close rest)
      rw [byteLength_append_single before rfl] at hinner
      exact hinner
  | _ =>
      exact absurd hdeep (Nat.not_lt_of_le hstack)

theorem readOn_failsAt_items (length : Nat) (items : List Expr)
    (hitems : ∀ e ∈ items, e.isPrintable = true) (start : Nat) (done : List Expr)
    (below : List Frame) (hbelow : below.length + 1 ≤ maxNesting)
    (hdeep : maxNesting < below.length + 1 + Expr.nestingAll items) (before : List Char)
    {rest : List Char} (hrest : EndsWord rest) :
    FailsAt (Expr.openingsAll (below.length + 1 + 1) before items)
      (readOn length (.list start done :: below)
        (tokensFrom (Text.byteLength before) (Expr.itemsText items ++ rest))) := by
  cases items with
  | nil =>
      exact absurd hdeep (Nat.not_lt_of_le hbelow)
  | cons e items =>
      rcases List.forall_mem_cons.mp hitems with ⟨he, hlater⟩
      cases items with
      | nil =>
          have hfirst := readOn_failsAt length e he (.list start done :: below) hbelow
            (by simpa [Expr.nestingAll] using hdeep) before hrest
          exact hfirst.append_left _
      | cons second items =>
          rw [Expr.itemsText_cons, List.append_assoc, List.cons_append]
          have hspace := endsWord_space (Expr.itemsText (second :: items) ++ rest)
          by_cases hfirst : maxNesting < below.length + 1 + e.nesting
          · exact (readOn_failsAt length e he (.list start done :: below) hbelow hfirst before
              hspace).append_left _
          · have hroom : below.length + 1 + e.nesting ≤ maxNesting := Nat.le_of_not_lt hfirst
            rcases readOn_chars length he (.list start done :: below) hroom
              (Text.byteLength before) hspace with ⟨last, hlast⟩
            have hlaterDeep :
                maxNesting < below.length + 1 + Expr.nestingAll (second :: items) := by
              rw [Expr.nestingAll] at hdeep
              omega
            have hbehind := readOn_failsAt_items length (second :: items) hlater start (e :: done)
              below hbelow hlaterDeep (before ++ e.chars ++ [' ']) hrest
            rw [byteLength_append_single _ rfl, Text.byteLength_append] at hbehind
            rw [hlast, tokensFrom_blank (by decide)]
            apply hbehind.append_right (e.openings _ before)
            intro opening hopening
            have hlevel := Expr.level_of_mem_openings e _ _ opening hopening
            omega

end

end Reader

/-!
# One printed expression

A printed form by itself reads as its expression, or it fails at the first
opening beyond the bound.
-/

theorem endsWord_nil : EndsWord [] := by
  intro c hc
  cases hc

theorem parse_of_isPrintable {e : Expr} (he : e.isPrintable = true)
    (hnesting : e.nesting ≤ maxNesting) : parse e.chars = .ok e := by
  rcases Reader.readOn_chars (Text.byteLength e.chars) he [] (by simpa using hnesting) 0
    endsWord_nil with ⟨last, hlast⟩
  rw [List.append_nil] at hlast
  have hnext : (Reader.ofSource e.chars).next =
      (.ok (some e), ⟨[], last.stop, Text.byteLength e.chars⟩) := hlast
  rw [parse, hnext]

theorem parse_eq_error {source : List Char} {error : Error}
    (h : (Reader.ofSource source).next.1 = .error error) : parse source = .error error := by
  rw [parse]
  generalize (Reader.ofSource source).next = result at h
  rcases result with ⟨answer, r⟩
  cases h
  rfl

theorem parse_too_deep {e : Expr} (he : e.isPrintable = true) (hdeep : maxNesting < e.nesting) :
    ∃ opening, Opening.firstTooDeep? (e.openings 1 []) = some opening ∧
      parse e.chars = .error ⟨.nestingTooDeep maxNesting,
        .ofRange (Text.byteLength opening.before) (Text.byteLength opening.before + 1)⟩ := by
  rcases Reader.readOn_failsAt (Text.byteLength e.chars) e he [] (Nat.zero_le _)
    (by simpa using hdeep) [] endsWord_nil with ⟨opening, hopening, hresult⟩
  rw [List.append_nil] at hresult
  exact ⟨opening, hopening, parse_eq_error hresult⟩

/--
Reading undoes printing up to the nesting bound.  Beyond it, reading fails at the
bracket or quote that opens the first level beyond the bound.
-/
theorem parse_chars {e : Expr} (he : e.isPrintable = true) :
    (e.nesting ≤ maxNesting → parse e.chars = .ok e) ∧
    (maxNesting < e.nesting →
      ∃ opening, (e.openings 1 []).find? (fun o => o.level == maxNesting + 1) = some opening ∧
        (∃ c after, e.chars = opening.before ++ c :: after ∧ (c = '(' ∨ c = '\'')) ∧
        parse e.chars = .error ⟨.nestingTooDeep maxNesting,
          .ofRange (Text.byteLength opening.before) (Text.byteLength opening.before + 1)⟩ ∧
        (Text.byteLength opening.before < Span.maxOffset →
          Span.ofRange (Text.byteLength opening.before) (Text.byteLength opening.before + 1) =
            ⟨Text.byteLength opening.before, Text.byteLength opening.before + 1⟩)) := by
  constructor
  · exact parse_of_isPrintable he
  · intro hdeep
    rcases parse_too_deep he hdeep with ⟨opening, hopening, hparse⟩
    refine ⟨opening, hopening, ?_, hparse, ?_⟩
    · simpa using Expr.text_of_mem_openings e 1 [] opening (List.mem_of_find?_eq_some hopening)
    · intro hoffset
      exact Span.ofRange_of_le (Nat.le_of_lt hoffset) hoffset

def mixedList : Expr :=
  .list [.atom "1+", .str "say \"hi\"; (no)", .quoted (.num ⟨0x3FC00000⟩), .list []]

/-- An expression behind a number of quotes. -/
def quotedTimes : Nat → Expr → Expr
  | 0, e => e
  | count + 1, e => .quoted (quotedTimes count e)

theorem isPrintable_quotedTimes (count : Nat) (e : Expr) :
    (quotedTimes count e).isPrintable = e.isPrintable := by
  induction count with
  | zero => rfl
  | succ count ih => exact ih

theorem nesting_quotedTimes (count : Nat) (e : Expr) :
    (quotedTimes count e).nesting = e.nesting + count := by
  induction count with
  | zero => rfl
  | succ count ih => exact congrArg (· + 1) ih

theorem parse_chars_quotedTimes :
    (mixedList.isPrintable = true ∧ mixedList.nesting ≤ maxNesting ∧
      parse mixedList.chars = .ok mixedList) ∧
    (quotedTimes 1001 mixedList).isPrintable = true ∧
    maxNesting < (quotedTimes 1001 mixedList).nesting ∧
    ∃ opening, ((quotedTimes 1001 mixedList).openings 1 []).find?
        (fun o => o.level == maxNesting + 1) = some opening ∧
      parse (quotedTimes 1001 mixedList).chars = .error ⟨.nestingTooDeep maxNesting,
        .ofRange (Text.byteLength opening.before) (Text.byteLength opening.before + 1)⟩ := by
  have hmixed : mixedList.isPrintable = true := by
    decide
  have hdeep : (quotedTimes 1001 mixedList).isPrintable = true := by
    rw [isPrintable_quotedTimes, hmixed]
  have hnesting : maxNesting < (quotedTimes 1001 mixedList).nesting := by
    rw [nesting_quotedTimes]
    decide
  have hshallow : mixedList.nesting ≤ maxNesting := by
    decide
  rcases (parse_chars hdeep).2 hnesting with ⟨opening, hopening, _, hparse, _⟩
  exact ⟨⟨hmixed, hshallow, (parse_chars hmixed).1 hshallow⟩, hdeep, hnesting, opening, hopening,
    hparse⟩

end Source
end ScopeLisp
