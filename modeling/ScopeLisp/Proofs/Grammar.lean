import ScopeLisp.Proofs.Lexing
import ScopeLisp.Source.Reader

/-!
# The grammar of programs

## Tokens of an expression

An expression of atoms, strings, numbers, quotes and lists has one sequence of
tokens.  A program is a sequence of such expressions, and its tokens are theirs
one after the other.

## What a reader has read

The open lists and quotes of a reader stand for the tokens read since the last
complete expression.  Each token read is added to what they stand for, so a
reader that comes to its end has read the tokens of what it returns.

## What a reader returns

Conversely a reader that meets the tokens of an expression puts the expression
where the tokens stand, as long as the nesting bound leaves room for it.
-/

namespace ScopeLisp
namespace Expr

/-!
# Trees and their tokens

A tree is made of atoms, strings, numbers, quotes and lists.  Functions and
null have no tokens.
-/

mutual

def isTree : Expr → Bool
  | .atom _ => true
  | .str _ => true
  | .num _ => true
  | .quoted inner => isTree inner
  | .list items => isTreeAll items
  | _ => false

def isTreeAll : List Expr → Bool
  | [] => true
  | e :: rest => isTree e && isTreeAll rest

end

mutual

/-- The tokens of an expression. -/
def lexemes : Expr → List Source.Lexeme
  | .atom name => [.atom name]
  | .str text => [.str text]
  | .num value => [.num value]
  | .quoted inner => .quote :: lexemes inner
  | .list items => .openList :: lexemesAll items ++ [.closeList]
  | _ => []

def lexemesAll : List Expr → List Source.Lexeme
  | [] => []
  | e :: rest => lexemes e ++ lexemesAll rest

end

theorem isTreeAll_iff {items : List Expr} :
    isTreeAll items = true ↔ ∀ e ∈ items, e.isTree = true := by
  induction items with
  | nil =>
      simp [isTreeAll]
  | cons e items ih =>
      simp [isTreeAll, ih]

theorem nestingAll_le_iff {items : List Expr} {bound : Nat} :
    nestingAll items ≤ bound ↔ ∀ e ∈ items, e.nesting ≤ bound := by
  induction items with
  | nil =>
      simp [nestingAll]
  | cons e items ih =>
      rw [nestingAll, Nat.max_le, ih, List.forall_mem_cons]

/-!
# Tokens of programs

All tokens of an expression are sound, so a program has no malformed ones.
-/

theorem lexemesAll_append (first second : List Expr) :
    lexemesAll (first ++ second) = lexemesAll first ++ lexemesAll second := by
  induction first with
  | nil =>
      rfl
  | cons e first ih =>
      simp [lexemesAll, ih]

mutual

theorem isSound_of_mem_lexemes (e : Expr) :
    ∀ lexeme ∈ e.lexemes, lexeme.isSound = true := by
  cases e with
  | atom name => simp [lexemes, Source.Lexeme.isSound]
  | str text => simp [lexemes, Source.Lexeme.isSound]
  | num value => simp [lexemes, Source.Lexeme.isSound]
  | quoted inner =>
      exact List.forall_mem_cons.mpr ⟨rfl, isSound_of_mem_lexemes inner⟩
  | list items =>
      refine List.forall_mem_append.mpr ⟨?_, by simp [Source.Lexeme.isSound]⟩
      exact List.forall_mem_cons.mpr ⟨rfl, isSound_of_mem_lexemesAll items⟩
  | native _ _ _ => simp [lexemes]
  | lambda _ _ _ => simp [lexemes]
  | null => simp [lexemes]

theorem isSound_of_mem_lexemesAll (items : List Expr) :
    ∀ lexeme ∈ lexemesAll items, lexeme.isSound = true := by
  cases items with
  | nil => simp [lexemesAll]
  | cons e rest =>
      exact List.forall_mem_append.mpr
        ⟨isSound_of_mem_lexemes e, isSound_of_mem_lexemesAll rest⟩

end

end Expr

namespace Source

/-!
# What has been read

The tokens of the open frames, the outermost one first, and those still to come
make up the program at every step.
-/

def Frame.lexemes : Frame → List Lexeme
  | .list _ items => .openList :: Expr.lexemesAll items.reverse
  | .quote => [.quote]

def openLexemes : List Frame → List Lexeme
  | [] => []
  | frame :: below => openLexemes below ++ frame.lexemes

/-- Open frames within the nesting bound, with nothing in them that exceeds it. -/
def Fits : List Frame → Prop
  | [] => True
  | .quote :: below => below.length < maxNesting ∧ Fits below
  | .list _ items :: below =>
      below.length < maxNesting ∧ Fits below ∧
        ∀ e ∈ items, e.isTree = true ∧ e.nesting + (below.length + 1) ≤ maxNesting

/-- A step that accounts for the tokens `read`, unless it is an error. -/
inductive Step.Reads (read : List Lexeme) : Step → Prop where
  | push {stack : List Frame} (hfits : Fits stack) (hread : openLexemes stack = read) :
      Reads read (.push stack)
  | done {e : Expr} (htree : e.isTree = true) (hnesting : e.nesting ≤ maxNesting)
      (hread : e.lexemes = read) : Reads read (.done e)
  | refused (error : Error) : Reads read (.refused error)
  | malformed (error : Error) : Reads read (.malformed error)

/-!
# Steps account for tokens

A closing bracket completes the innermost open list, and every other token is
added to what the open frames stand for.
-/

theorem place_reads (stack : List Frame) (hstack : Fits stack) (e : Expr)
    (htree : e.isTree = true) (hroom : e.nesting + stack.length ≤ maxNesting) :
    (place e stack).Reads (openLexemes stack ++ e.lexemes) := by
  induction stack generalizing e with
  | nil =>
      exact .done htree hroom rfl
  | cons frame below ih =>
      cases frame with
      | quote =>
          have hinner : (Expr.quoted e).nesting + below.length ≤ maxNesting := by
            rw [Expr.nesting, Nat.add_assoc, Nat.add_comm 1]
            exact hroom
          have hquoted := ih hstack.2 (.quoted e) htree hinner
          rw [openLexemes, Frame.lexemes, List.append_assoc]
          exact hquoted
      | list start items =>
          rcases hstack with ⟨hlevel, hbelow, hitems⟩
          refine .push ⟨hlevel, hbelow, ?_⟩ ?_
          · exact List.forall_mem_cons.mpr ⟨⟨htree, hroom⟩, hitems⟩
          · simp [openLexemes, Frame.lexemes, Expr.lexemesAll_append, Expr.lexemesAll]

theorem length_le_of_fits {stack : List Frame} (h : Fits stack) : stack.length ≤ maxNesting := by
  cases stack with
  | nil =>
      exact Nat.zero_le _
  | cons frame below =>
      cases frame with
      | quote => exact h.1
      | list start items => exact h.1

theorem descend_reads (frame : Frame) {lexeme : Lexeme} (hframe : frame.lexemes = [lexeme])
    {stack : List Frame} (hfits : stack.length < maxNesting → Fits (frame :: stack))
    (token : Token) : (descend token frame stack).Reads (openLexemes stack ++ [lexeme]) := by
  unfold descend
  split
  · rename_i hroom
    exact .push (hfits hroom) (by rw [openLexemes, hframe])
  · exact .refused _

theorem close_reads {start : Nat} {items : List Expr} {below : List Frame}
    (h : Fits (.list start items :: below)) :
    (place (.list items.reverse) below).Reads
      (openLexemes (.list start items :: below) ++ [.closeList]) := by
  rcases h with ⟨hlevel, hbelow, hitems⟩
  have htree : (Expr.list items.reverse).isTree = true := by
    apply Expr.isTreeAll_iff.mpr
    intro e he
    exact (hitems e (List.mem_reverse.mp he)).1
  have hnesting : Expr.nestingAll items.reverse ≤ maxNesting - (below.length + 1) := by
    apply Expr.nestingAll_le_iff.mpr
    intro e he
    exact Nat.le_sub_of_add_le (hitems e (List.mem_reverse.mp he)).2
  have hroom : (Expr.list items.reverse).nesting + below.length ≤ maxNesting := by
    rw [Expr.nesting]
    omega
  have hplace := place_reads below hbelow _ htree hroom
  simpa [openLexemes, Frame.lexemes, Expr.lexemes] using hplace

/-- Each token is added to what the open frames stand for. -/
theorem step_reads {stack : List Frame} (hstack : Fits stack) (token : Token) :
    (step stack token).Reads (openLexemes stack ++ [token.lexeme]) := by
  rcases token with ⟨lexeme, start, stop⟩
  have hleaf (e : Expr) (he : e.nesting = 0) : e.nesting + stack.length ≤ maxNesting := by
    rw [he, Nat.zero_add]
    exact length_le_of_fits hstack
  cases lexeme with
  | openList =>
      exact descend_reads (.list start []) rfl (fun h => ⟨h, hstack, by simp⟩) _
  | quote =>
      exact descend_reads .quote rfl (fun h => ⟨h, hstack⟩) _
  | closeList =>
      cases stack with
      | nil =>
          exact .refused _
      | cons frame below =>
          cases frame with
          | quote => exact .refused _
          | list start items => exact close_reads hstack
  | hash =>
      exact .refused _
  | atom name =>
      exact place_reads stack hstack (.atom name) rfl (hleaf _ rfl)
  | str text =>
      exact place_reads stack hstack (.str text) rfl (hleaf _ rfl)
  | num value =>
      exact place_reads stack hstack (.num value) rfl (hleaf _ rfl)
  | badEscape offset c =>
      exact .malformed _
  | badNumber word =>
      exact .malformed _

theorem readAll_reads {length : Nat} {stack : List Frame} (hstack : Fits stack)
    {read es : List Expr} {tokens : List Token}
    (h : readAll length stack read tokens = .ok es) :
    ∃ later, es = read.reverse ++ later ∧
      openLexemes stack ++ tokens.map Token.lexeme = Expr.lexemesAll later ∧
      ∀ e ∈ later, e.isTree = true ∧ e.nesting ≤ maxNesting := by
  -- The tokens of the open frames and those still to come make up the program at every step.
  induction tokens generalizing stack read with
  | nil =>
      cases stack with
      | nil =>
          cases h
          exact ⟨[], by simp, rfl, by simp⟩
      | cons frame below =>
          cases frame with
          | quote => cases h
          | list start items => cases h
  | cons token tokens ih =>
      have hreads := step_reads hstack token
      rw [readAll] at h
      generalize step stack token = next at h hreads
      cases hreads with
      | push hfits hread =>
          rcases ih hfits h with ⟨later, hes, htokens, hlater⟩
          refine ⟨later, hes, ?_, hlater⟩
          rw [hread, List.append_assoc] at htokens
          exact htokens
      | @done e htree hnesting hread =>
          have hnothing : Fits [] := trivial
          rcases ih hnothing h with ⟨later, hes, htokens, hlater⟩
          refine ⟨e :: later, ?_, ?_, ?_⟩
          · rw [hes, List.reverse_cons, List.append_assoc]
            rfl
          · rw [Expr.lexemesAll, hread, ← htokens, List.append_assoc]
            rfl
          · exact List.forall_mem_cons.mpr ⟨⟨htree, hnesting⟩, hlater⟩
      | refused error => cases h
      | malformed error => cases h

/-!
# What will be read

The tokens of an expression put it where they stand, and the tokens of items
are read into the list that is open.
-/

namespace Reader

def behind (length : Nat) (token : Token) (rest : List Token) :
    Step → Except Error (Option Expr) × Reader
  | .push stack => readOn length stack rest
  | .done e => (.ok (some e), ⟨rest, token.stop, length⟩)
  | .refused error => (.error error, ⟨token :: rest, token.start, length⟩)
  | .malformed error => (.error error, ⟨rest, token.stop, length⟩)

theorem readOn_cons (length : Nat) (stack : List Frame) (token : Token) (rest : List Token) :
    readOn length stack (token :: rest) = behind length token rest (step stack token) := by
  rw [readOn]
  cases step stack token <;> rfl

theorem descend_of_room {stack : List Frame} (hroom : stack.length < maxNesting) (token : Token)
    (frame : Frame) : descend token frame stack = .push (frame :: stack) :=
  if_pos hroom

mutual

/-- The tokens of an expression put it where they stand. -/
theorem readOn_expr (length : Nat) (e : Expr) (htree : e.isTree = true) (stack : List Frame)
    (hroom : stack.length + e.nesting ≤ maxNesting) {front : List Token}
    (hfront : front.map Token.lexeme = e.lexemes) (rest : List Token) :
    ∃ last, readOn length stack (front ++ rest) = behind length last rest (place e stack) := by
  cases e with
  | atom name =>
      rcases List.map_eq_singleton_iff.mp hfront with ⟨⟨_, start, stop⟩, rfl, rfl⟩
      exact ⟨_, readOn_cons length stack _ rest⟩
  | str text =>
      rcases List.map_eq_singleton_iff.mp hfront with ⟨⟨_, start, stop⟩, rfl, rfl⟩
      exact ⟨_, readOn_cons length stack _ rest⟩
  | num value =>
      rcases List.map_eq_singleton_iff.mp hfront with ⟨⟨_, start, stop⟩, rfl, rfl⟩
      exact ⟨_, readOn_cons length stack _ rest⟩
  | quoted inner =>
      rcases List.map_eq_cons_iff.mp hfront with ⟨⟨_, start, stop⟩, front, rfl, rfl, hinner⟩
      have hlevel : stack.length < maxNesting := by
        rw [Expr.nesting] at hroom
        omega
      have hinside : (Frame.quote :: stack).length + inner.nesting ≤ maxNesting := by
        rw [Expr.nesting] at hroom
        rw [List.length_cons]
        omega
      rcases readOn_expr length inner htree (.quote :: stack) hinside hinner rest with ⟨last, hlast⟩
      refine ⟨last, ?_⟩
      rw [List.cons_append, readOn_cons]
      show behind _ _ _ (descend _ .quote stack) = _
      rw [descend_of_room hlevel]
      exact hlast
  | list items =>
      rcases List.map_eq_append_iff.mp hfront with ⟨front, close, rfl, hopen, hclose⟩
      rcases List.map_eq_cons_iff.mp hopen with ⟨⟨_, start, stop⟩, inside, rfl, rfl, hinside⟩
      rcases List.map_eq_singleton_iff.mp hclose with ⟨⟨_, closeStart, closeStop⟩, rfl, rfl⟩
      have hlevel : stack.length < maxNesting := by
        rw [Expr.nesting] at hroom
        omega
      have hitems : stack.length + 1 + Expr.nestingAll items ≤ maxNesting := by
        rw [Expr.nesting] at hroom
        omega
      have hread := readOn_items length items htree start [] stack hitems hinside
        (⟨.closeList, closeStart, closeStop⟩ :: rest)
      refine ⟨⟨.closeList, closeStart, closeStop⟩, ?_⟩
      rw [List.cons_append, List.cons_append, readOn_cons, List.append_assoc]
      show behind _ _ _ (descend _ (.list start []) stack) = _
      rw [descend_of_room hlevel]
      show readOn length (.list start [] :: stack) (inside ++ _) = _
      rw [List.singleton_append, hread, readOn_cons]
      simp [step]
  | native _ _ _ => cases htree
  | lambda _ _ _ => cases htree
  | null => cases htree

theorem readOn_items (length : Nat) (items : List Expr) (htree : Expr.isTreeAll items = true)
    (start : Nat) (done : List Expr) (below : List Frame)
    (hroom : below.length + 1 + Expr.nestingAll items ≤ maxNesting) {front : List Token}
    (hfront : front.map Token.lexeme = Expr.lexemesAll items) (rest : List Token) :
    readOn length (.list start done :: below) (front ++ rest) =
      readOn length (.list start (items.reverse ++ done) :: below) rest := by
  cases items with
  | nil =>
      cases List.map_eq_nil_iff.mp hfront
      rfl
  | cons e items =>
      rcases List.map_eq_append_iff.mp hfront with ⟨first, later, rfl, hfirst, hlater⟩
      rcases Bool.and_eq_true_iff.mp htree with ⟨he, hitems⟩
      rw [Expr.nestingAll] at hroom
      have hfirstRoom : (Frame.list start done :: below).length + e.nesting ≤ maxNesting := by
        rw [List.length_cons]
        omega
      rcases readOn_expr length e he (.list start done :: below) hfirstRoom hfirst (later ++ rest)
        with ⟨last, hlast⟩
      rw [List.append_assoc, hlast]
      show readOn length (.list start (e :: done) :: below) (later ++ rest) = _
      rw [readOn_items length items hitems start (e :: done) below (by omega) hlater rest]
      simp

end

end Reader

/-!
# Programs

A program is read expression by expression.
-/

theorem readAll_eq (length : Nat) (stack : List Frame) (read : List Expr) (tokens : List Token) :
    readAll length stack read tokens =
      match Reader.readOn length stack tokens with
      | (.error error, _) => .error error
      | (.ok none, _) => .ok read.reverse
      | (.ok (some e), r) => readAll length [] (e :: read) r.pending := by
  induction tokens generalizing stack with
  | nil =>
      rw [readAll, Reader.readOn]
      cases unfinished? length stack <;> rfl
  | cons token rest ih =>
      rw [readAll, Reader.readOn]
      cases step stack token with
      | push stack => exact ih stack
      | done e => rfl
      | refused error => rfl
      | malformed error => rfl

theorem readAll_of_lexemes (length : Nat) (es : List Expr)
    (hes : ∀ e ∈ es, e.isTree = true ∧ e.nesting ≤ maxNesting) (read : List Expr)
    {tokens : List Token} (htokens : tokens.map Token.lexeme = Expr.lexemesAll es) :
    readAll length [] read tokens = .ok (read.reverse ++ es) := by
  induction es generalizing read tokens with
  | nil =>
      cases List.map_eq_nil_iff.mp htokens
      simp [readAll, unfinished?]
  | cons e es ih =>
      rcases List.map_eq_append_iff.mp htokens with ⟨front, rest, rfl, hfront, hrest⟩
      rcases List.forall_mem_cons.mp hes with ⟨⟨htree, hnesting⟩, hlater⟩
      rcases Reader.readOn_expr length e htree [] (by simpa using hnesting) hfront rest with
        ⟨last, hlast⟩
      rw [readAll_eq, hlast]
      show readAll length [] (e :: read) rest = _
      rw [ih hlater (e :: read) hrest]
      simp

/--
A program reads as some expressions if and only if its lexemes are theirs, one
after the other, and none of them nests too deeply.
-/
theorem parseProgram_eq_ok_iff (source : List Char) (es : List Expr) :
    parseProgram source = .ok es ↔
      lex source = some (Expr.lexemesAll es) ∧
        ∀ e ∈ es, e.isTree = true ∧ e.nesting ≤ maxNesting := by
  constructor
  · intro hparse
    have hnothing : Fits [] := trivial
    rcases readAll_reads hnothing hparse with ⟨later, hes, htokens, hlater⟩
    cases hes
    exact ⟨lex_eq_some_iff.mpr ⟨htokens, Expr.isSound_of_mem_lexemesAll _⟩, hlater⟩
  · rintro ⟨hlex, hes⟩
    exact readAll_of_lexemes _ es hes [] (lex_eq_some_iff.mp hlex).1

end Source
end ScopeLisp
