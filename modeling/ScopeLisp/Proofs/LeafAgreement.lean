import Mathlib.Data.List.Forall2
import ScopeLisp.Proofs.FunctionIdentity

/-!
# Equality, leaf by leaf

## Shapes and leaves

An expression is a shape of lists and quotes with leaves in its places.  Functions
are leaves, whatever code they hold.

## Equality

Two expressions are equal when they have one shape and their leaves agree in
order.  All laws of equality come from the leaves: agreement of leaves is
symmetric and transitive, and only a NaN does not agree with itself.

## Printed forms

A shape is a layout for the words of the leaves.  Leaves that agree have the same
word, except for the sign of a zero.
-/

namespace ScopeLisp

/-!
# Shapes, leaves and their agreement

The leaves of an expression stand in reading order in the places of its shape.
-/

/-- Numbers that are the same, or both zero.  A NaN agrees with nothing. -/
def Binary32.Agrees (x y : Binary32) : Prop :=
  x.isNaN = false ∧ (x = y ∨ x.magnitude = 0 ∧ y.magnitude = 0)

namespace Expr

inductive Shape where
  | leaf
  | quoted (inner : Shape)
  | list (items : List Shape)

mutual

def shape : Expr → Shape
  | .quoted inner => .quoted (shape inner)
  | .list items => .list (shapeAll items)
  | _ => .leaf

def shapeAll : List Expr → List Shape
  | [] => []
  | e :: rest => shape e :: shapeAll rest

end

mutual

def leaves : Expr → List Expr
  | .quoted inner => leaves inner
  | .list items => leavesAll items
  | e => [e]

def leavesAll : List Expr → List Expr
  | [] => []
  | e :: rest => leaves e ++ leavesAll rest

end

/--
Leaves that agree.  A function agrees with itself: it has one number, one home, and
with them one name and routine or one list of parameters.
-/
inductive LeafAgrees : Expr → Expr → Prop where
  | atom (name : String) : LeafAgrees (.atom name) (.atom name)
  | str (text : String) : LeafAgrees (.str text) (.str text)
  | num {x y : Binary32} (h : x.Agrees y) : LeafAgrees (.num x) (.num y)
  | native (identity : Identity) (name : String) (routine : Routine) :
      LeafAgrees (.native identity name routine) (.native identity name routine)
  | lambda (identity : Identity) (params : List String) (body body' : List Expr) :
      LeafAgrees (.lambda identity params body) (.lambda identity params body')
  | null : LeafAgrees .null .null

end Expr

/-!
# Numbers

On each side of zero a number is at the place of its magnitude, and zero has
two numbers.
-/

namespace Binary32

variable {x y z : Binary32}

theorem isNaN_of_magnitude_eq_zero (h : x.magnitude = 0) : x.isNaN = false := by
  rw [isNaN, h]
  rfl

theorem Agrees.isNaN_right (h : x.Agrees y) : y.isNaN = false := by
  rcases h with ⟨hx, rfl | ⟨_, hy⟩⟩
  · exact hx
  · exact isNaN_of_magnitude_eq_zero hy

theorem Agrees.symm (h : x.Agrees y) : y.Agrees x := by
  refine ⟨h.isNaN_right, ?_⟩
  rcases h.2 with hsame | ⟨hx, hy⟩
  · exact .inl hsame.symm
  · exact .inr ⟨hy, hx⟩

theorem Agrees.trans (hxy : x.Agrees y) (hyz : y.Agrees z) : x.Agrees z := by
  rcases hxy with ⟨hx, rfl | ⟨hzero, hyzero⟩⟩
  · exact hyz
  · rcases hyz with ⟨_, rfl | ⟨_, hz⟩⟩
    · exact ⟨hx, .inr ⟨hzero, hyzero⟩⟩
    · exact ⟨hx, .inr ⟨hzero, hz⟩⟩

theorem signedMagnitude_eq_iff :
    x.signedMagnitude = y.signedMagnitude ↔ x = y ∨ x.magnitude = 0 ∧ y.magnitude = 0 := by
  constructor
  · intro hplace
    by_cases hsign : x.isNegative = y.isNegative
    · left
      have hmagnitude : x.magnitude = y.magnitude := by
        rw [signedMagnitude, signedMagnitude, hsign] at hplace
        split at hplace <;> omega
      rw [← x.ofMagnitude_isNegative_magnitude, ← y.ofMagnitude_isNegative_magnitude, hsign,
        hmagnitude]
    · right
      rw [signedMagnitude, signedMagnitude] at hplace
      cases hx : x.isNegative with
      | false =>
          have hy : y.isNegative = true := by simpa [hx] using hsign
          rw [hx, hy, if_neg Bool.false_ne_true, if_pos rfl] at hplace
          omega
      | true =>
          have hy : y.isNegative = false := by simpa [hx] using hsign
          rw [hx, hy, if_neg Bool.false_ne_true, if_pos rfl] at hplace
          omega
  · rintro (rfl | ⟨hx, hy⟩)
    · rfl
    · simp [signedMagnitude, hx, hy]

theorem equal_iff_agrees : equal x y = true ↔ x.Agrees y := by
  rw [equal, Bool.and_eq_true, decide_eq_true_eq, signedMagnitude_eq_iff]
  constructor
  · rintro ⟨hordered, hplace⟩
    simp only [ordered, Bool.and_eq_true, Bool.not_eq_true'] at hordered
    exact ⟨hordered.1, hplace⟩
  · intro h
    simp [ordered, h.1, h.isNaN_right, h.2]

end Binary32

/-!
# Leaves

Of all leaves the NaNs alone do not agree with themselves.
-/

namespace Expr

variable {a b c : Expr}

theorem LeafAgrees.symm (h : a.LeafAgrees b) : b.LeafAgrees a := by
  cases h with
  | atom name => exact .atom name
  | str text => exact .str text
  | num h => exact .num h.symm
  | native identity name routine => exact .native identity name routine
  | lambda identity params body body' => exact .lambda identity params body' body
  | null => exact .null

theorem LeafAgrees.trans (hab : a.LeafAgrees b) (hbc : b.LeafAgrees c) : a.LeafAgrees c := by
  cases hab with
  | num h =>
      cases hbc with
      | num h' => exact .num (h.trans h')
  | lambda identity params body body' =>
      cases hbc with
      | lambda _ _ _ body'' => exact .lambda identity params body body''
  | _ => exact hbc

theorem leafAgrees_self_iff (hleaf : a.shape = .leaf) :
    a.LeafAgrees a ↔ ∀ x, a = .num x → x.isNaN = false := by
  constructor
  · rintro h x rfl
    cases h with
    | num h => exact h.1
  · intro hNaN
    cases a with
    | atom name => exact .atom name
    | str text => exact .str text
    | num x => exact .num ⟨hNaN x rfl, .inl rfl⟩
    | quoted inner => cases hleaf
    | list items => cases hleaf
    | native identity name routine => exact .native identity name routine
    | lambda identity params body => exact .lambda identity params body body
    | null => exact .null

theorem equal_iff_leafAgrees (ha : a.shape = .leaf) (hb : b.shape = .leaf) :
    a.equal b = true ↔ a.LeafAgrees b := by
  constructor
  · intro h
    unfold equal at h
    split at h
    · cases of_decide_eq_true h
      exact .atom _
    · cases of_decide_eq_true h
      exact .str _
    · exact .num (Binary32.equal_iff_agrees.mp h)
    · cases ha
    · cases ha
    · rcases of_decide_eq_true h with ⟨rfl, rfl, rfl⟩
      exact .native ..
    · rcases of_decide_eq_true h with ⟨rfl, rfl⟩
      exact .lambda ..
    · exact .null
    · cases h
  · intro h
    cases h with
    | num h => exact Binary32.equal_iff_agrees.mpr h
    | _ => simp [equal]

/-!
# Shapes

An expression has as many leaves as its shape has places.
-/

mutual

def Shape.places : Shape → Nat
  | .leaf => 1
  | .quoted inner => inner.places
  | .list items => placesAll items

def Shape.placesAll : List Shape → Nat
  | [] => 0
  | shape :: rest => shape.places + placesAll rest

end

mutual

theorem length_leaves (e : Expr) : e.leaves.length = e.shape.places := by
  cases e with
  | quoted inner => exact length_leaves inner
  | list items => exact length_leavesAll items
  | _ => rfl

theorem length_leavesAll (items : List Expr) :
    (leavesAll items).length = Shape.placesAll (shapeAll items) := by
  cases items with
  | nil =>
      rfl
  | cons e rest =>
      rw [leavesAll, List.length_append, length_leaves e, length_leavesAll rest]
      rfl

end

/-!
# Equality by shape and leaves

In equally many places the leaves agree side by side, and how many places there
are is a matter of the shape.
-/

theorem forall₂_append_iff {r : Expr → Expr → Prop} {before before' after after' : List Expr}
    (hlength : before.length = before'.length) :
    List.Forall₂ r (before ++ after) (before' ++ after') ↔
      List.Forall₂ r before before' ∧ List.Forall₂ r after after' := by
  constructor
  · intro h
    have htake := List.forall₂_take before.length h
    have hdrop := List.forall₂_drop before.length h
    rw [List.take_left, hlength, List.take_left] at htake
    rw [List.drop_left, hlength, List.drop_left] at hdrop
    exact ⟨htake, hdrop⟩
  · rintro ⟨hbefore, hafter⟩
    exact List.rel_append hbefore hafter

mutual

/-- Equality is one shape with leaves that agree. -/
theorem equal_iff (a b : Expr) :
    a.equal b = true ↔ a.shape = b.shape ∧ List.Forall₂ LeafAgrees a.leaves b.leaves := by
  cases a with
  | quoted a =>
      cases b with
      | quoted b =>
          rw [equal, equal_iff a b, shape, shape, Shape.quoted.injEq]
          rfl
      | _ => simp [equal, shape]
  | list as =>
      cases b with
      | list bs =>
          rw [equal, equalAll_iff as bs, shape, shape, Shape.list.injEq]
          rfl
      | _ => simp [equal, shape]
  | _ =>
      cases b with
      | quoted b => simp [equal, shape]
      | list bs => simp [equal, shape]
      | _ =>
          rw [equal_iff_leafAgrees rfl rfl]
          simp [shape, leaves]

theorem equalAll_iff (as bs : List Expr) :
    equalAll as bs = true ↔
      shapeAll as = shapeAll bs ∧ List.Forall₂ LeafAgrees (leavesAll as) (leavesAll bs) := by
  cases as with
  | nil =>
      cases bs with
      | nil => simp [equalAll, leavesAll]
      | cons b bs => simp [equalAll, shapeAll]
  | cons a as =>
      cases bs with
      | nil => simp [equalAll, shapeAll]
      | cons b bs =>
          rw [equalAll, Bool.and_eq_true, equal_iff a b, equalAll_iff as bs, shapeAll, shapeAll,
            List.cons.injEq, leavesAll, leavesAll]
          constructor
          · rintro ⟨⟨hshape, hleaves⟩, hshapes, hrest⟩
            exact ⟨⟨hshape, hshapes⟩, List.rel_append hleaves hrest⟩
          · rintro ⟨⟨hshape, hshapes⟩, hleaves⟩
            have hlength : a.leaves.length = b.leaves.length := by
              rw [length_leaves, length_leaves, hshape]
            rcases (forall₂_append_iff hlength).mp hleaves with ⟨hfirst, hrest⟩
            exact ⟨⟨hshape, hfirst⟩, hshapes, hrest⟩

end

/-!
# Leaves as parts

The leaves are the parts that have no parts.
-/

theorem leavesAll_eq_flatMap (items : List Expr) : leavesAll items = items.flatMap leaves := by
  induction items with
  | nil =>
      rfl
  | cons e rest ih =>
      rw [leavesAll, ih, List.flatMap_cons]

mutual

theorem part_of_mem_leaves (e : Expr) {leaf : Expr} (h : leaf ∈ e.leaves) :
    leaf.shape = .leaf ∧ Relation.ReflTransGen Child leaf e := by
  cases e with
  | quoted inner =>
      rcases part_of_mem_leaves inner h with ⟨hleaf, hpart⟩
      exact ⟨hleaf, .tail hpart (.quoted inner)⟩
  | list items =>
      rcases part_of_mem_leavesAll items h with ⟨hleaf, e, hmem, hpart⟩
      exact ⟨hleaf, .tail hpart (.item hmem)⟩
  | _ =>
      rw [List.mem_singleton.mp h]
      exact ⟨rfl, .refl⟩

theorem part_of_mem_leavesAll (items : List Expr) {leaf : Expr} (h : leaf ∈ leavesAll items) :
    leaf.shape = .leaf ∧ ∃ e ∈ items, Relation.ReflTransGen Child leaf e := by
  cases items with
  | nil =>
      cases h
  | cons e rest =>
      rcases List.mem_append.mp h with h | h
      · rcases part_of_mem_leaves e h with ⟨hleaf, hpart⟩
        exact ⟨hleaf, e, List.mem_cons_self, hpart⟩
      · rcases part_of_mem_leavesAll rest h with ⟨hleaf, e', hmem, hpart⟩
        exact ⟨hleaf, e', List.mem_cons_of_mem _ hmem, hpart⟩

end

theorem Child.leaves_subset {part e : Expr} (h : Child part e) : part.leaves ⊆ e.leaves := by
  cases h with
  | quoted =>
      exact List.Subset.refl _
  | @item items hmem =>
      intro leaf hleaf
      show leaf ∈ leavesAll items
      rw [leavesAll_eq_flatMap]
      exact List.mem_flatMap.mpr ⟨part, hmem, hleaf⟩

theorem mem_leaves_iff {leaf e : Expr} :
    leaf ∈ e.leaves ↔ leaf.shape = .leaf ∧ Relation.ReflTransGen Child leaf e := by
  constructor
  · exact part_of_mem_leaves e
  · rintro ⟨hleaf, hpart⟩
    induction hpart with
    | refl =>
        cases leaf with
        | quoted inner => cases hleaf
        | list items => cases hleaf
        | _ => exact List.mem_singleton_self _
    | tail _ hchild ih =>
        exact hchild.leaves_subset ih

/-!
# Laws of equality

Each law holds of equality because it holds of the agreement of leaves.
-/

theorem equal_symm (h : a.equal b = true) : b.equal a = true := by
  rw [equal_iff] at h ⊢
  refine ⟨h.1.symm, List.Forall₂.flip ?_⟩
  exact h.2.imp fun _ _ hleaf => hleaf.symm

theorem leaves_agree_trans {as bs cs : List Expr} (hab : List.Forall₂ LeafAgrees as bs)
    (hbc : List.Forall₂ LeafAgrees bs cs) : List.Forall₂ LeafAgrees as cs := by
  induction hab generalizing cs with
  | nil =>
      exact hbc
  | cons hleaf _ ih =>
      cases hbc with
      | cons hleaf' hrest => exact .cons (hleaf.trans hleaf') (ih hrest)

theorem equal_trans (hab : a.equal b = true) (hbc : b.equal c = true) : a.equal c = true := by
  rw [equal_iff] at hab hbc ⊢
  exact ⟨hab.1.trans hbc.1, leaves_agree_trans hab.2 hbc.2⟩

/-- An expression is equal to itself unless there is a NaN among its parts. -/
theorem equal_self_iff (e : Expr) :
    e.equal e = true ↔ ∀ x, Relation.ReflTransGen Child (.num x) e → x.isNaN = false := by
  rw [equal_iff, List.forall₂_same]
  constructor
  · rintro ⟨_, hleaves⟩ x hpart
    have hself := hleaves (.num x) (mem_leaves_iff.mpr ⟨rfl, hpart⟩)
    exact (leafAgrees_self_iff rfl).mp hself x rfl
  · intro hNaN
    refine ⟨rfl, fun leaf hmem => ?_⟩
    rcases mem_leaves_iff.mp hmem with ⟨hleaf, hpart⟩
    apply (leafAgrees_self_iff hleaf).mpr
    rintro x rfl
    exact hNaN x hpart

/-!
# Printed forms

Texts are the same up to the sign of zeros when they are one layout, filled
with words that are the same or both the word for a zero.
-/

mutual

def Shape.fill : Shape → List (List Char) → List Char
  | .leaf, words => words.headD []
  | .quoted inner, words => '\'' :: inner.fill words
  | .list items, words => '(' :: spaced (fillAll items words) ++ [')']

def Shape.fillAll : List Shape → List (List Char) → List (List Char)
  | [], _ => []
  | shape :: rest, words =>
      shape.fill (words.take shape.places) :: fillAll rest (words.drop shape.places)

end

def zeroWords : List (List Char) :=
  ["0".toList, "-0".toList]

def SameWord (word word' : List Char) : Prop :=
  word = word' ∨ word ∈ zeroWords ∧ word' ∈ zeroWords

/-- Texts that are the same up to the sign of zeros: one layout, filled with the same words. -/
def SameText (text text' : List Char) : Prop :=
  ∃ (shape : Shape) (words words' : List (List Char)), text = shape.fill words ∧
    text' = shape.fill words' ∧ List.Forall₂ SameWord words words'

/-!
# Filling a shape with words

A printed form is the shape with the words of the leaves in it.
-/

mutual

theorem chars_eq_fill (e : Expr) : e.chars = e.shape.fill (e.leaves.map chars) := by
  cases e with
  | quoted inner =>
      rw [chars_quoted, chars_eq_fill inner]
      rfl
  | list items =>
      rw [chars_list, charsAll_eq_fillAll items]
      rfl
  | _ =>
      rfl

theorem charsAll_eq_fillAll (items : List Expr) :
    charsAll items = Shape.fillAll (shapeAll items) ((leavesAll items).map chars) := by
  cases items with
  | nil =>
      rfl
  | cons e rest =>
      have hlength : e.shape.places = (e.leaves.map chars).length := by
        rw [List.length_map, length_leaves]
      rw [charsAll_cons, chars_eq_fill e, charsAll_eq_fillAll rest, shapeAll, Shape.fillAll,
        leavesAll, List.map_append, hlength, List.take_left, List.drop_left]

end

theorem chars_of_magnitude_eq_zero {x : Binary32} (h : x.magnitude = 0) :
    x.chars ∈ zeroWords := by
  rw [← x.ofMagnitude_isNegative_magnitude, h]
  cases x.isNegative <;> decide +kernel

theorem LeafAgrees.sameWord (h : a.LeafAgrees b) : SameWord a.chars b.chars := by
  cases h with
  | num h =>
      rcases h.2 with rfl | ⟨hx, hy⟩
      · exact .inl rfl
      · exact .inr ⟨chars_of_magnitude_eq_zero hx, chars_of_magnitude_eq_zero hy⟩
  | _ => exact .inl rfl

theorem sameText_of_equal (h : a.equal b = true) : SameText a.chars b.chars := by
  rcases (equal_iff a b).mp h with ⟨hshape, hleaves⟩
  refine ⟨a.shape, a.leaves.map chars, b.leaves.map chars, chars_eq_fill a, ?_, ?_⟩
  · rw [hshape]
    exact chars_eq_fill b
  · rw [List.forall₂_map_left_iff, List.forall₂_map_right_iff]
    exact hleaves.imp fun _ _ hleaf => hleaf.sameWord

/-!
# Functions

Functions of one store agree when they are one function, which their numbers
tell.
-/

theorem shape_of_number? {f : Expr} {n : Nat} (h : f.number? = some n) : f.shape = .leaf := by
  cases f with
  | native => rfl
  | lambda => rfl
  | _ => cases h

theorem leafAgrees_iff_number? {s : Store} (hs : s.Coherent) {f g : Expr} (hf : s.Has f)
    (hg : s.Has g) : f.LeafAgrees g ↔ f.number? = g.number? := by
  rcases hf.1 with ⟨n, hn⟩
  rcases hg.1 with ⟨m, hm⟩
  rw [← equal_iff_leafAgrees (shape_of_number? hn) (shape_of_number? hm), hs.equal_iff hf hg]
  constructor
  · rintro rfl
    rfl
  · exact hs.eq_of_number? hf hg

/--
Equality goes by leaves, and a NaN alone breaks it.  Expressions are equal exactly
when they have one shape and their leaves agree one by one: atoms and strings by
their text, numbers as numbers, with one zero and no NaN, and functions by their
number, their home and what they show.  Equality is symmetric and transitive, and
an expression is equal to itself exactly when no NaN stands in it outside of
functions.  Equal expressions print alike up to the sign of zeros.  Among the
functions of one store, where each number is that of one function, the number
alone decides.
-/
theorem equality_goes_by_leaves (a b : Expr) :
    (a.equal b = true ↔
      a.shape = b.shape ∧ List.Forall₂ LeafAgrees a.leaves b.leaves) ∧
    a.equal b = b.equal a ∧
    (∀ c : Expr, a.equal b = true → b.equal c = true → a.equal c = true) ∧
    (a.equal a = true ↔ ∀ x, Relation.ReflTransGen Child (.num x) a → x.isNaN = false) ∧
    (a.equal b = true → SameText a.chars b.chars) ∧
    ∀ s : Store, s.Coherent → ∀ f g, s.Has f → s.Has g →
      (f.LeafAgrees g ↔ f.number? = g.number?) := by
  refine ⟨equal_iff a b, ?_, fun c => equal_trans, equal_self_iff a, sameText_of_equal,
    fun s hs f g => leafAgrees_iff_number? hs⟩
  rw [Bool.eq_iff_iff]
  exact ⟨equal_symm, equal_symm⟩

/-- A number in a quoted list, beside a function with a NaN in its body. -/
def besideNaN (x : Binary32) : Expr :=
  .list [.quoted (.list [.num x, .atom "a"]), .lambda ⟨18, Store.first⟩ ["x"] [.num .nan]]

theorem equality_goes_by_leaves_zeros :
    let negative := Binary32.neg .zero
    let function : Expr := .native ⟨0, Store.first⟩ "do" (.builtin .sequence)
    (besideNaN .zero).toText = "('(0 a) #<fn (x)>)" ∧
    (besideNaN negative).toText = "('(-0 a) #<fn (x)>)" ∧
    (besideNaN .zero).equal (besideNaN negative) = true ∧
    (besideNaN .zero).equal (besideNaN .zero) = true ∧
    SameText (besideNaN .zero).chars (besideNaN negative).chars ∧
    (besideNaN .nan).equal (besideNaN .nan) = false ∧
    Store.library.Coherent ∧ Store.library.Has function ∧ function.LeafAgrees function := by
  intro negative function
  have hequal : (besideNaN .zero).equal (besideNaN negative) = true := by decide +kernel
  have hback : (besideNaN negative).equal (besideNaN .zero) = true := by
    rw [← (equality_goes_by_leaves (besideNaN .zero) (besideNaN negative)).2.1]
    exact hequal
  have hNaN : Relation.ReflTransGen Child (.num .nan) (besideNaN .nan) :=
    .tail (.tail (.single (.item List.mem_cons_self)) (.quoted _)) (.item List.mem_cons_self)
  have hfunction : Store.library.Has function :=
    ⟨⟨0, rfl⟩, function,
      Store.bound_of_local? (show Store.library.forest.local? Store.first "do" = _ from rfl), .refl⟩
  rcases equality_goes_by_leaves (besideNaN .zero) (besideNaN negative) with
    ⟨_, _, htrans, _, htext, hfunctions⟩
  refine ⟨by decide +kernel, by decide +kernel, hequal, htrans _ hequal hback, htext hequal, ?_,
    Store.coherent_library, hfunction, ?_⟩
  · apply Bool.eq_false_iff.mpr
    intro hself
    cases (equality_goes_by_leaves (besideNaN .nan) .null).2.2.2.1.mp hself .nan hNaN
  · exact (hfunctions _ Store.coherent_library _ _ hfunction hfunction).mpr rfl

end Expr
end ScopeLisp
