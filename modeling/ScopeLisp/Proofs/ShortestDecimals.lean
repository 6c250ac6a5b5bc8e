import Mathlib.Algebra.Order.Field.Power
import Mathlib.Algebra.Order.Ring.Rat
import Mathlib.Tactic.FieldSimp
import Mathlib.Tactic.Linarith
import Mathlib.Tactic.Positivity
import Mathlib.Tactic.Ring
import ScopeLisp.Proofs.Rounding

/-!
# Shortest decimals

## Values

Decimals and numbers have rational values, and reading a decimal gives a number
of which none is nearer to its value.

## Grids

The decimals with one exponent are a grid.  If any of them reads back to a
number, then one of the two neighbours of the number does, because what lies
between two values that are rounded to one number reads as that number, too.

## Digits

On the coarsest grid of all that hold a decimal reading back, such a decimal has
the fewest digits.  One with fewer digits on a finer grid would be smaller than a
power of ten that is on a coarser grid and reads back as well.
-/

namespace ScopeLisp

def Decimal.value (d : Decimal) : ℚ :=
  d.coefficient * 10 ^ d.exponent

namespace Binary32

def size (x : Binary32) : ℚ :=
  x.units / 2 ^ 149

/-!
# Reading

Reading a decimal rounds a quotient of units, so that no finite number is
nearer to the decimal.
-/

theorem tenPow_pos (n : Nat) : 0 < Decimal.tenPow n :=
  Nat.pow_pos (by decide)

theorem tenPow_div (exponent : Int) :
    (Decimal.tenPow exponent.toNat : ℚ) / Decimal.tenPow (-exponent).toNat = 10 ^ exponent := by
  have hcast (n : Nat) : (Decimal.tenPow n : ℚ) = 10 ^ (n : Int) := by
    rw [zpow_natCast]
    exact Nat.cast_pow 10 n
  rw [hcast, hcast, ← zpow_sub₀ (by norm_num), Int.toNat_sub_toNat_neg]

theorem unitsPerOne_cast : (unitsPerOne : ℚ) = 2 ^ 149 :=
  Nat.cast_pow 2 149

theorem value_units (d : Decimal) :
    d.value * 2 ^ 149 =
      (d.coefficient * Decimal.tenPow d.exponent.toNat * unitsPerOne : Nat) /
        Decimal.tenPow (-d.exponent).toNat := by
  rw [Decimal.value, ← tenPow_div, ← unitsPerOne_cast]
  push_cast
  ring

theorem distance_units (y : Binary32) (d : Decimal) :
    |y.size - d.value| * (2 ^ 149 * Decimal.tenPow (-d.exponent).toNat) =
      ((y.units * Decimal.tenPow (-d.exponent).toNat : Nat) -
        ((d.coefficient * Decimal.tenPow d.exponent.toNat * unitsPerOne : Nat) : Int)).natAbs := by
  have hpositive : (0 : ℚ) < Decimal.tenPow (-d.exponent).toNat := Nat.cast_pos.mpr (tenPow_pos _)
  have hscale : (0 : ℚ) < 2 ^ 149 * Decimal.tenPow (-d.exponent).toNat := by positivity
  have hvalue := value_units d
  rw [eq_div_iff (ne_of_gt hpositive)] at hvalue
  rw [← abs_of_pos hscale, ← abs_mul, Nat.cast_natAbs, Int.cast_abs, Int.cast_sub,
    Int.cast_natCast, Int.cast_natCast, ← hvalue, sub_mul, size]
  congr 1
  push_cast
  field_simp

theorem ofDecimal_nearest {d : Decimal} (hfinite : (ofDecimal d).isFinite = true) (y : Binary32) :
    |(ofDecimal d).size - d.value| ≤ |y.size - d.value| := by
  have hpositive : (0 : ℚ) < Decimal.tenPow (-d.exponent).toNat := Nat.cast_pos.mpr (tenPow_pos _)
  have hscale : (0 : ℚ) < 2 ^ 149 * Decimal.tenPow (-d.exponent).toNat := by positivity
  apply le_of_mul_le_mul_right _ hscale
  rw [distance_units, distance_units]
  exact_mod_cast nearest_nearest (tenPow_pos _) hfinite y

/-!
# Values that are rounded

A larger value is never rounded to a smaller magnitude.  So what lies between
two values that are rounded to one number is rounded to that number, too.
-/

/-- A magnitude that a value is rounded to. -/
def RoundsTo (value : ℚ) (m : Nat) : Prop :=
  ∃ n d : Nat, 0 < d ∧ value * 2 ^ 149 = n / d ∧ nearestMagnitude n d = m

theorem RoundsTo.le {value value' : ℚ} {m m' : Nat} (h : RoundsTo value m)
    (h' : RoundsTo value' m') (hle : value ≤ value') : m ≤ m' := by
  rcases h with ⟨n, d, hd, hvalue, rfl⟩
  rcases h' with ⟨n', d', hd', hvalue', rfl⟩
  have hquotients : (n : ℚ) / d ≤ n' / d' := by
    rw [← hvalue, ← hvalue']
    exact mul_le_mul_of_nonneg_right hle (by positivity)
  rw [div_le_div_iff₀ (Nat.cast_pos.mpr hd) (Nat.cast_pos.mpr hd')] at hquotients
  exact nearestMagnitude_le hd hd' (by exact_mod_cast hquotients)

theorem roundsTo_ofDecimal (d : Decimal) : RoundsTo d.value (ofDecimal d).magnitude :=
  ⟨_, _, tenPow_pos _, value_units d, (magnitude_nearest _ _).symm⟩

theorem roundsTo_size {x : Binary32} (hx : x.isFinite = true) : RoundsTo x.size x.magnitude := by
  refine ⟨x.units * 1, 1, Nat.one_pos, ?_, nearestMagnitude_units hx Nat.one_pos⟩
  simp [size]

theorem ofDecimal_eq_abs_iff {d : Decimal} {x : Binary32} :
    ofDecimal d = x.abs ↔ (ofDecimal d).magnitude = x.magnitude := by
  constructor
  · intro h
    rw [h, abs, magnitude_ofMagnitude false x.magnitude_lt]
  · intro h
    rw [abs, ← h, ofDecimal, magnitude_nearest]
    rfl

theorem roundsTo_of_reads {d : Decimal} {x : Binary32} (h : ofDecimal d = x.abs) :
    RoundsTo d.value x.magnitude := by
  rw [← ofDecimal_eq_abs_iff.mp h]
  exact roundsTo_ofDecimal d

theorem reads_of_between {x : Binary32} {low high : ℚ} {d : Decimal}
    (hlow : RoundsTo low x.magnitude) (hhigh : RoundsTo high x.magnitude) (hle : low ≤ d.value)
    (hge : d.value ≤ high) : ofDecimal d = x.abs := by
  apply ofDecimal_eq_abs_iff.mpr
  apply Nat.le_antisymm
  · exact (roundsTo_ofDecimal d).le hhigh hge
  · exact hlow.le (roundsTo_ofDecimal d) hle

/-!
# Neighbours on a grid

The neighbours of a number on a grid are the largest decimal that is not
larger, and the smallest that is.
-/

/-- The distance of neighbours on a grid, in a unit in which all sizes are whole as well. -/
def spacing (exponent : Int) : Nat :=
  unitsPerOne * Decimal.tenPow exponent.toNat

def unitsOn (exponent : Int) (x : Binary32) : Nat :=
  x.units * Decimal.tenPow (-exponent).toNat

def below (x : Binary32) (exponent : Int) : Decimal :=
  ⟨x.unitsOn exponent / spacing exponent, exponent⟩

def above (x : Binary32) (exponent : Int) : Decimal :=
  ⟨(below x exponent).coefficient + 1, exponent⟩

def offset (x : Binary32) (exponent : Int) : ℚ :=
  (x.unitsOn exponent % spacing exponent : Nat) / spacing exponent

/-!
# Distances on a grid

The upper neighbour is taken when it is not further away than the lower one.
What reads back on a grid is not nearer than a neighbour that reads back, too.
-/

theorem spacing_pos (exponent : Int) : 0 < spacing exponent :=
  Nat.mul_pos (twoPow_pos 149) (tenPow_pos _)

theorem size_eq_unitsOn (x : Binary32) (exponent : Int) :
    x.size = x.unitsOn exponent / spacing exponent * 10 ^ exponent := by
  have hfine : (0 : ℚ) < Decimal.tenPow (-exponent).toNat := Nat.cast_pos.mpr (tenPow_pos _)
  have hcoarse : (0 : ℚ) < Decimal.tenPow exponent.toNat := Nat.cast_pos.mpr (tenPow_pos _)
  have hone : (0 : ℚ) < unitsPerOne := Nat.cast_pos.mpr (twoPow_pos 149)
  rw [← tenPow_div, size, ← unitsPerOne_cast, unitsOn, spacing, Nat.cast_mul, Nat.cast_mul]
  field_simp

theorem size_sub_below (x : Binary32) (exponent : Int) :
    x.size - (below x exponent).value = offset x exponent * 10 ^ exponent := by
  have hspacing : (0 : ℚ) < spacing exponent := Nat.cast_pos.mpr (spacing_pos exponent)
  have hsplit := congrArg (Nat.cast (R := ℚ))
    (Nat.div_add_mod (x.unitsOn exponent) (spacing exponent))
  rw [Nat.cast_add, Nat.cast_mul] at hsplit
  rw [size_eq_unitsOn x exponent, ← hsplit, Decimal.value, below, offset]
  field_simp
  ring

theorem above_sub_size (x : Binary32) (exponent : Int) :
    (above x exponent).value - x.size = (1 - offset x exponent) * 10 ^ exponent := by
  have hstep : (above x exponent).value = (below x exponent).value + 10 ^ exponent := by
    rw [Decimal.value, above, Nat.cast_add, Nat.cast_one, add_mul, one_mul]
    rfl
  rw [hstep, sub_mul, one_mul, ← size_sub_below]
  ring

theorem below_le_size (x : Binary32) (exponent : Int) : (below x exponent).value ≤ x.size := by
  have hoffset : 0 ≤ offset x exponent := by
    unfold offset
    positivity
  have hdistance : 0 ≤ x.size - (below x exponent).value := by
    rw [size_sub_below]
    positivity
  linarith

theorem size_le_above (x : Binary32) (exponent : Int) : x.size ≤ (above x exponent).value := by
  have hspacing : (0 : ℚ) < spacing exponent := Nat.cast_pos.mpr (spacing_pos exponent)
  have hoffset : offset x exponent ≤ 1 := by
    rw [offset, div_le_one hspacing, Nat.cast_le]
    exact Nat.le_of_lt (Nat.mod_lt _ (spacing_pos exponent))
  have hdistance : 0 ≤ (above x exponent).value - x.size := by
    rw [above_sub_size]
    exact mul_nonneg (sub_nonneg.mpr hoffset) (by positivity)
  linarith

theorem nearer_iff (x : Binary32) (exponent : Int) :
    spacing exponent ≤ 2 * (x.unitsOn exponent % spacing exponent) ↔
      (above x exponent).value - x.size ≤ x.size - (below x exponent).value := by
  have hspacing : (0 : ℚ) < spacing exponent := Nat.cast_pos.mpr (spacing_pos exponent)
  have hpower : (0 : ℚ) < 10 ^ exponent := by positivity
  rw [above_sub_size, size_sub_below, mul_le_mul_iff_left₀ hpower, sub_le_iff_le_add, offset,
    ← add_div, le_div_iff₀ hspacing, one_mul, ← two_mul]
  exact_mod_cast Iff.rfl

theorem value_le_of_le {exponent : Int} {m n : Nat} (h : m ≤ n) :
    (⟨m, exponent⟩ : Decimal).value ≤ (⟨n, exponent⟩ : Decimal).value := by
  have hcast : (m : ℚ) ≤ n := Nat.cast_le.mpr h
  exact mul_le_mul_of_nonneg_right hcast (by positivity)

/-- What reads back on a grid is not nearer than a neighbour that reads back, too. -/
theorem neighbour_of_reads {x : Binary32} (hx : x.isFinite = true) {d : Decimal}
    (h : ofDecimal d = x.abs) :
    ofDecimal (below x d.exponent) = x.abs ∧
        x.size - (below x d.exponent).value ≤ |d.value - x.size| ∨
      ofDecimal (above x d.exponent) = x.abs ∧
        (above x d.exponent).value - x.size ≤ |d.value - x.size| := by
  have hreads := roundsTo_of_reads h
  rcases Nat.lt_or_ge (below x d.exponent).coefficient d.coefficient with hlt | hge
  · right
    have hle : (above x d.exponent).value ≤ d.value := value_le_of_le hlt
    have hsize := size_le_above x d.exponent
    refine ⟨reads_of_between (roundsTo_size hx) hreads hsize hle, ?_⟩
    rw [abs_of_nonneg (by linarith)]
    linarith
  · left
    have hle : d.value ≤ (below x d.exponent).value := value_le_of_le hge
    have hsize := below_le_size x d.exponent
    refine ⟨reads_of_between hreads (roundsTo_size hx) hle hsize, ?_⟩
    rw [abs_of_nonpos (by linarith)]
    linarith

/-!
# The decimal of a grid

A grid with a decimal that reads back is not passed over, and of all its
decimals that read back none is nearer than the one that is taken.
-/

theorem decimalOnGrid_eq (x : Binary32) (exponent : Int) :
    decimalOnGrid x exponent =
      if ofDecimal (below x exponent) = x.abs then
        if ofDecimal (above x exponent) = x.abs ∧
            (above x exponent).value - x.size ≤ x.size - (below x exponent).value then
          some (above x exponent)
        else some (below x exponent)
      else if ofDecimal (above x exponent) = x.abs then some (above x exponent)
      else none := by
  simp only [← nearer_iff]
  rfl

theorem decimalOnGrid_ne_none {x : Binary32} (hx : x.isFinite = true) {d : Decimal}
    (h : ofDecimal d = x.abs) : decimalOnGrid x d.exponent ≠ none := by
  rw [decimalOnGrid_eq]
  rcases neighbour_of_reads hx h with ⟨hbelow, _⟩ | ⟨habove, _⟩
  · rw [if_pos hbelow]
    split
    all_goals exact Option.some_ne_none _
  · rw [if_pos habove]
    repeat' split
    all_goals exact Option.some_ne_none _

theorem decimalOnGrid_nearest {x : Binary32} (hx : x.isFinite = true) {exponent : Int}
    {d : Decimal} (hd : decimalOnGrid x exponent = some d) {d' : Decimal}
    (h' : ofDecimal d' = x.abs) (hexponent : d'.exponent = exponent) :
    |d.value - x.size| ≤ |d'.value - x.size| := by
  have hother := neighbour_of_reads hx h'
  have hbelow := below_le_size x exponent
  have habove := size_le_above x exponent
  rw [hexponent] at hother
  rw [decimalOnGrid_eq] at hd
  split at hd
  · split at hd
    · rename_i hboth
      cases hd
      rw [abs_of_nonneg (by linarith)]
      rcases hother with ⟨_, hother⟩ | ⟨_, hother⟩
      · exact le_trans hboth.2 hother
      · exact hother
    · rename_i hnot
      cases hd
      rw [abs_of_nonpos (by linarith), neg_sub]
      rcases hother with ⟨_, hother⟩ | ⟨hreads, hother⟩
      · exact hother
      · exact le_trans (le_of_lt (lt_of_not_ge fun hle => hnot ⟨hreads, hle⟩)) hother
  · rename_i hnot
    split at hd
    · cases hd
      rw [abs_of_nonneg (by linarith)]
      rcases hother with ⟨hreads, _⟩ | ⟨_, hother⟩
      · exact (hnot hreads).elim
      · exact hother
    · cases hd

/-!
# Coarse grids

A decimal with a larger exponent than any that is tried is zero or beyond all
numbers.
-/

theorem power_le_value {d : Decimal} (hpos : 0 < d.coefficient) {exponent : Int}
    (h : exponent ≤ d.exponent) : (⟨1, exponent⟩ : Decimal).value ≤ d.value := by
  have hone : ((1 : Nat) : ℚ) ≤ d.coefficient := Nat.cast_le.mpr hpos
  have hpower : (10 : ℚ) ^ exponent ≤ 10 ^ d.exponent := zpow_le_zpow_right₀ (by norm_num) h
  exact mul_le_mul hone hpower (by positivity) (by positivity)

theorem coefficient_eq_zero_of_large {d : Decimal} (hexponent : 38 < d.exponent)
    (hfinite : (ofDecimal d).magnitude < infinityMagnitude) : d.coefficient = 0 := by
  apply Nat.eq_zero_of_not_pos
  intro hpos
  have hinfinite : (ofDecimal ⟨1, 39⟩).magnitude = infinityMagnitude := by
    decide +kernel
  have hle := (roundsTo_ofDecimal ⟨1, 39⟩).le (roundsTo_ofDecimal d) (power_le_value hpos hexponent)
  omega

theorem mem_gridExponents {exponent : Int} :
    exponent ∈ gridExponents ↔ -149 ≤ exponent ∧ exponent ≤ 38 := by
  rw [gridExponents, List.mem_map]
  constructor
  · rintro ⟨step, hstep, rfl⟩
    rw [List.mem_range] at hstep
    omega
  · intro h
    refine ⟨(38 - exponent).toNat, List.mem_range.mpr ?_, ?_⟩
    all_goals omega

theorem gridExponents_decreasing : gridExponents.Pairwise (· > ·) := by
  apply List.pairwise_map.mpr
  apply List.pairwise_lt_range.imp
  intro step step' hstep
  omega

theorem exponent_of_decimalOnGrid {x : Binary32} {exponent : Int} {d : Decimal}
    (h : decimalOnGrid x exponent = some d) : d.exponent = exponent := by
  rw [decimalOnGrid_eq] at h
  repeat' split at h
  all_goals cases h
  all_goals rfl

/-!
# Fewest digits

A power of ten that reads back is on no coarser grid than the shortest decimal,
and a decimal that reads back is not larger than a power of ten with one digit
more.
-/

theorem exponent_le_of_reads {x : Binary32} (hx : x.isFinite = true) {d : Decimal}
    (hd : shortestDecimal x = some d) {d' : Decimal} (h' : ofDecimal d' = x.abs)
    (htried : d'.exponent ≤ 38) : d'.exponent ≤ d.exponent := by
  rcases List.findSome?_eq_some_iff.mp hd with ⟨front, exponent, rest, hlist, hgrid, hfront⟩
  have hmem : exponent ∈ gridExponents := by
    rw [hlist]
    exact List.mem_append_right _ List.mem_cons_self
  have hdecreasing := gridExponents_decreasing
  rw [hlist, List.pairwise_append] at hdecreasing
  rw [exponent_of_decimalOnGrid hgrid]
  by_contra hcoarser
  have hmem' : d'.exponent ∈ gridExponents := by
    have hlow := (mem_gridExponents.mp hmem).1
    exact mem_gridExponents.mpr ⟨by omega, htried⟩
  rw [hlist] at hmem'
  rcases List.mem_append.mp hmem' with hbefore | hbehind
  · exact decimalOnGrid_ne_none hx h' (hfront _ hbefore)
  · rcases List.mem_cons.mp hbehind with heq | hrest
    · exact hcoarser (le_of_eq heq)
    · have hlater := (List.pairwise_cons.mp hdecreasing.2.1).1 _ hrest
      omega

theorem magnitude_of_reads {x : Binary32} (hx : x.isFinite = true) {d : Decimal}
    (h : ofDecimal d = x.abs) : (ofDecimal d).magnitude < infinityMagnitude := by
  rw [ofDecimal_eq_abs_iff.mp h]
  exact of_decide_eq_true hx

theorem power_le_of_reads {x : Binary32} (hx : x.isFinite = true) {d : Decimal}
    (hd : shortestDecimal x = some d) {exponent : Int} (h : ofDecimal ⟨1, exponent⟩ = x.abs) :
    exponent ≤ d.exponent := by
  apply exponent_le_of_reads hx hd h
  by_contra hlarge
  exact Nat.one_ne_zero
    (coefficient_eq_zero_of_large (lt_of_not_ge hlarge) (magnitude_of_reads hx h))

theorem value_power (exponent : Int) (count : Nat) :
    (⟨1, exponent + count⟩ : Decimal).value = 10 ^ count * 10 ^ exponent := by
  rw [Decimal.value, zpow_add₀ (by norm_num), zpow_natCast, Nat.cast_one, one_mul, mul_comm]

theorem value_le_power {x : Binary32} (hx : x.isFinite = true) {d : Decimal}
    (hd : shortestDecimal x = some d) {d' : Decimal} (h' : ofDecimal d' = x.abs) {count : Nat}
    (hcount : d'.coefficient < 10 ^ count) :
    d'.value ≤ (⟨1, d.exponent + count⟩ : Decimal).value := by
  rw [value_power]
  rcases le_or_gt d'.exponent 38 with htried | hlarge
  · have hexponent := exponent_le_of_reads hx hd h' htried
    have hcoefficient : (d'.coefficient : ℚ) ≤ 10 ^ count := by
      exact_mod_cast Nat.le_of_lt hcount
    exact mul_le_mul hcoefficient (zpow_le_zpow_right₀ (by norm_num) hexponent) (by positivity)
      (by positivity)
  · rw [Decimal.value, coefficient_eq_zero_of_large hlarge (magnitude_of_reads hx h'),
      Nat.cast_zero, zero_mul]
    positivity

theorem coefficient_eq_zero_of_reads {x : Binary32} (hx : x.isFinite = true) {d : Decimal}
    (hd : shortestDecimal x = some d) (hreads : ofDecimal d = x.abs) {d' : Decimal}
    (h' : ofDecimal d' = x.abs) (hzero : d'.coefficient = 0) : d.coefficient = 0 := by
  apply Nat.eq_zero_of_not_pos
  intro hpos
  have hvalue : d'.value = 0 := by
    rw [Decimal.value, hzero, Nat.cast_zero, zero_mul]
  have hnought : ofDecimal ⟨0, 38⟩ = x.abs := by
    apply reads_of_between (roundsTo_of_reads h') (roundsTo_of_reads h')
    all_goals
      rw [hvalue]
      simp [Decimal.value]
  have hone : ofDecimal ⟨1, 38⟩ = x.abs := by
    apply reads_of_between (roundsTo_of_reads h') (roundsTo_of_reads hreads)
    · rw [hvalue, Decimal.value]
      positivity
    · exact power_le_value hpos (exponent_le_of_reads hx hd hnought (le_refl _))
  exact absurd (hnought.trans hone.symm) (by decide +kernel)

/-- No decimal with fewer digits reads back. -/
theorem coefficient_lt_of_reads {x : Binary32} (hx : x.isFinite = true) {d : Decimal}
    (hd : shortestDecimal x = some d) (hreads : ofDecimal d = x.abs) {d' : Decimal}
    (h' : ofDecimal d' = x.abs) {count : Nat} (hcount : d'.coefficient < 10 ^ count) :
    d.coefficient < 10 ^ count := by
  rcases Nat.eq_zero_or_pos count with rfl | hpos
  · rw [coefficient_eq_zero_of_reads hx hd hreads h' (Nat.lt_one_iff.mp hcount)]
    exact Nat.one_pos
  · by_contra hlarge
    -- A power of ten lies between the two decimals, on a grid that is too coarse.
    have hbetween : ofDecimal ⟨1, d.exponent + count⟩ = x.abs := by
      apply reads_of_between (roundsTo_of_reads h') (roundsTo_of_reads hreads)
        (value_le_power hx hd h' hcount)
      have hcoefficient : (10 : ℚ) ^ count ≤ d.coefficient := by
        exact_mod_cast Nat.le_of_not_lt hlarge
      rw [value_power]
      exact mul_le_mul_of_nonneg_right hcoefficient (by positivity)
    have hexponent := power_le_of_reads hx hd hbetween
    omega

/-!
# Shortest decimals
-/

/--
A decimal that reads as a number, of all that do with the fewest digits, and of
those whose last digit is in the same place with the nearest value.
-/
structure IsShortest (d : Decimal) (x : Binary32) : Prop where
  reads : ofDecimal d = x
  fewest : ∀ d' : Decimal, ofDecimal d' = x →
    ∀ count, d'.coefficient < 10 ^ count → d.coefficient < 10 ^ count
  nearest : ∀ d' : Decimal, ofDecimal d' = x → d'.exponent = d.exponent →
    |d.value - x.size| ≤ |d'.value - x.size|

theorem isShortest_shortestDecimal {x : Binary32} (hx : x.isFinite = true)
    (hsign : x.isNegative = false) : ∃ d, shortestDecimal x = some d ∧ IsShortest d x := by
  rcases exists_shortestDecimal hx with ⟨d, hd, hreads⟩
  rcases List.exists_of_findSome?_eq_some hd with ⟨exponent, _, hgrid⟩
  have habs := abs_of_isNegative hsign
  refine ⟨d, hd, hreads.trans habs, ?_, ?_⟩
  · intro d' h' count hcount
    exact coefficient_lt_of_reads hx hd hreads (h'.trans habs.symm) hcount
  · intro d' h' hexponent
    rw [exponent_of_decimalOnGrid hgrid] at hexponent
    exact decimalOnGrid_nearest hx hgrid (h'.trans habs.symm) hexponent

end Binary32
end ScopeLisp
