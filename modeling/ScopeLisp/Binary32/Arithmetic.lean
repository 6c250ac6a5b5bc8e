import ScopeLisp.Binary32.Rounding

/-!
# Arithmetic

## Exact results, rounded once

Sums, products and quotients of finite numbers are formed exactly on units and
rounded once.  Infinities and NaNs follow the IEEE rules, and a sum that
vanishes is negative zero only when both terms are.
-/

namespace ScopeLisp
namespace Binary32

def add (x y : Binary32) : Binary32 :=
  if x.isNaN || y.isNaN then nan
  else if x.isInfinite then
    if y.isInfinite && x.isNegative != y.isNegative then nan else x
  else if y.isInfinite then y
  else
    let sum := x.signedUnits + y.signedUnits
    if sum = 0 then
      ofMagnitude (x.isNegative && y.isNegative) 0
    else
      nearest (decide (sum < 0)) sum.natAbs 1

def sub (x y : Binary32) : Binary32 :=
  add x (neg y)

def mul (x y : Binary32) : Binary32 :=
  let negative := x.isNegative != y.isNegative
  if x.isNaN || y.isNaN then nan
  else if x.isInfinite || y.isInfinite then
    if x.magnitude = 0 ∨ y.magnitude = 0 then nan else infinity negative
  else
    nearest negative (x.units * y.units) unitsPerOne

def div (x y : Binary32) : Binary32 :=
  let negative := x.isNegative != y.isNegative
  if x.isNaN || y.isNaN then nan
  else if x.isInfinite then
    if y.isInfinite then nan else infinity negative
  else if y.isInfinite then ofMagnitude negative 0
  else if y.magnitude = 0 then
    if x.magnitude = 0 then nan else infinity negative
  else
    nearest negative (x.units * unitsPerOne) y.units

def one : Binary32 := ofNat 1

end Binary32
end ScopeLisp
