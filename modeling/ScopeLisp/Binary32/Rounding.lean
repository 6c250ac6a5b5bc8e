import ScopeLisp.Binary32.Basic

/-!
# Rounding

## Nearest number to a quotient

All results of arithmetic and all decimal literals are quotients of natural
numbers, counted in units of `2 ^ (-149)`.  This module rounds such a quotient
to the nearest number, a tie going to the even neighbour, and overflows to
infinity.
-/

namespace ScopeLisp
namespace Binary32

/-- The whole number nearest to `n / d`, and the even one of two equally near. -/
def roundHalfEven (n d : Nat) : Nat :=
  let quotient := n / d
  let remainder := n % d
  if 2 * remainder < d then quotient
  else if d < 2 * remainder then quotient + 1
  else quotient + quotient % 2

def excessBits (n d : Nat) : Nat :=
  if n / d = 0 then 0 else (n / d).log2 + 1 - 24

/--
The magnitude nearest to `n / d` units.  A significand of 24 bits in binade `t`
stands at magnitude `t * binadeSize + significand`; one that rounds up to 25 bits
lands on the first value of the next binade by the same sum.
-/
def nearestMagnitude (n d : Nat) : Nat :=
  let excess := excessBits n d
  min (excess * binadeSize + roundHalfEven n (d * twoPow excess)) infinityMagnitude

def nearest (negative : Bool) (n d : Nat) : Binary32 :=
  ofMagnitude negative (nearestMagnitude n d)

def ofNat (n : Nat) : Binary32 :=
  nearest false (n * unitsPerOne) 1

theorem roundHalfEven_mul (m d : Nat) (hd : 0 < d) :
    roundHalfEven (m * d) d = m := by
  simp [roundHalfEven, Nat.mul_div_cancel m hd, hd]

end Binary32
end ScopeLisp
