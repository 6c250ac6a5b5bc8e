/-!
# Single precision numbers

## Patterns and units

A number of the language is a 32-bit IEEE pattern: one sign bit above a
magnitude of 31 bits.  Magnitudes are ordered like the values they stand for,
with one infinity above every finite value and the NaNs above infinity.

Every finite magnitude is a whole number of units of `2 ^ (-149)`, the smallest
positive value.  The module gives that number, so that all later arithmetic is
exact arithmetic on natural numbers followed by one rounding.
-/

namespace ScopeLisp

/-- A single precision number, given by its bit pattern. -/
structure Binary32 where
  bits : UInt32
deriving DecidableEq, Inhabited

namespace Binary32

/-!
# The layout of a pattern

The sign bit weighs `2 ^ 31`, and a binade holds `2 ^ 23` values, which is the
weight of the lowest exponent bit.
-/

def signWeight : Nat := 0x80000000

/-- The magnitude of infinity.  Smaller magnitudes are finite, larger ones are NaNs. -/
def infinityMagnitude : Nat := 0x7F800000

def binadeSize : Nat := 0x800000

def twoPow (n : Nat) : Nat := Nat.pow 2 n

def unitsPerOne : Nat := twoPow 149

def ofMagnitude (negative : Bool) (magnitude : Nat) : Binary32 :=
  ⟨UInt32.ofNat (if negative then signWeight + magnitude else magnitude)⟩

/-!
# Parts and classes of numbers

The magnitude is the pattern without its sign bit.  It decides whether a number
is finite, an infinity or a NaN.
-/

def isNegative (x : Binary32) : Bool :=
  decide (signWeight ≤ x.bits.toNat)

def magnitude (x : Binary32) : Nat :=
  x.bits.toNat % signWeight

def isNaN (x : Binary32) : Bool :=
  decide (infinityMagnitude < x.magnitude)

def isInfinite (x : Binary32) : Bool :=
  decide (x.magnitude = infinityMagnitude)

def isFinite (x : Binary32) : Bool :=
  decide (x.magnitude < infinityMagnitude)

/--
The size of a finite number in units of `2 ^ (-149)`.  In the lowest binade the
magnitude itself is the count; above it a leading bit is implied and each
further binade doubles the spacing.
-/
def units (x : Binary32) : Nat :=
  if x.magnitude < binadeSize then
    x.magnitude
  else
    (binadeSize + x.magnitude % binadeSize) * twoPow (x.magnitude / binadeSize - 1)

def signedUnits (x : Binary32) : Int :=
  if x.isNegative then -(x.units : Int) else x.units

/-!
# Special numbers and signs

There is an infinity of either sign, and one NaN stands for all of them.
Turning the sign of a number leaves its size as it is.
-/

def zero : Binary32 := ofMagnitude false 0

def nan : Binary32 := ofMagnitude false 0x7FC00000

def infinity (negative : Bool) : Binary32 :=
  ofMagnitude negative infinityMagnitude

def abs (x : Binary32) : Binary32 :=
  ofMagnitude false x.magnitude

def neg (x : Binary32) : Binary32 :=
  ofMagnitude (!x.isNegative) x.magnitude

/-!
# A number is its sign and its magnitude
-/

theorem toNat_bits_ofMagnitude (negative : Bool) {m : Nat} (h : m < signWeight) :
    (ofMagnitude negative m).bits.toNat = if negative then signWeight + m else m := by
  have hsize : signWeight + signWeight = UInt32.size := rfl
  simp only [ofMagnitude]
  apply UInt32.toNat_ofNat_of_lt
  split <;> omega

@[simp] theorem magnitude_ofMagnitude (negative : Bool) {m : Nat} (h : m < signWeight) :
    (ofMagnitude negative m).magnitude = m := by
  rw [magnitude, toNat_bits_ofMagnitude negative h]
  split
  · rw [Nat.add_mod_left, Nat.mod_eq_of_lt h]
  · exact Nat.mod_eq_of_lt h

@[simp] theorem isNegative_ofMagnitude (negative : Bool) {m : Nat} (h : m < signWeight) :
    (ofMagnitude negative m).isNegative = negative := by
  rw [isNegative, toNat_bits_ofMagnitude negative h]
  cases negative with
  | false =>
      simp [h]
  | true =>
      simp

theorem magnitude_lt (x : Binary32) : x.magnitude < signWeight :=
  Nat.mod_lt _ (by decide)

/-- A number is its sign and its magnitude. -/
theorem ofMagnitude_isNegative_magnitude (x : Binary32) :
    ofMagnitude x.isNegative x.magnitude = x := by
  have hbits : (ofMagnitude x.isNegative x.magnitude).bits.toNat = x.bits.toNat := by
    rw [toNat_bits_ofMagnitude _ x.magnitude_lt]
    have hlt : x.bits.toNat < signWeight + signWeight := x.bits.toNat_lt
    by_cases h : signWeight ≤ x.bits.toNat
    · have hmagnitude : x.magnitude = x.bits.toNat - signWeight := by
        rw [magnitude, Nat.mod_eq_sub_mod h]
        exact Nat.mod_eq_of_lt (by omega)
      simp only [isNegative, h, decide_true, if_true, hmagnitude]
      omega
    · have hmagnitude : x.magnitude = x.bits.toNat :=
        Nat.mod_eq_of_lt (by omega)
      simp [isNegative, h, hmagnitude]
  cases x with
  | mk bits =>
      exact congrArg Binary32.mk (UInt32.toNat_inj.mp hbits)

/-!
# Comparison

Magnitudes are ordered like sizes, so a signed magnitude decides every
comparison of two numbers.  Both zeros have the signed magnitude zero, and a
NaN compares as false with everything.
-/

/-- A position on the number line, the same for both zeros. -/
def signedMagnitude (x : Binary32) : Int :=
  if x.isNegative then -(x.magnitude : Int) else x.magnitude

def ordered (x y : Binary32) : Bool :=
  !x.isNaN && !y.isNaN

def equal (x y : Binary32) : Bool :=
  ordered x y && decide (x.signedMagnitude = y.signedMagnitude)

def less (x y : Binary32) : Bool :=
  ordered x y && decide (x.signedMagnitude < y.signedMagnitude)

def atMost (x y : Binary32) : Bool :=
  ordered x y && decide (x.signedMagnitude ≤ y.signedMagnitude)

end Binary32
end ScopeLisp
