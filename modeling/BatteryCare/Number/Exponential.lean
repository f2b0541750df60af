import BatteryCare.Number.Single

/-!
# The exponential of a number that is not positive

`expOfNonpos x` is `e ^ x` for `x ≤ 0`, within one unit in the last place. It follows the function
`expf` of the library `libm` on these arguments, operation by operation: the curve of the battery is
calibrated with it, and it is not part of this library. The argument is split as `k * ln 2 + r` with
a whole `k` and a small `r`. The logarithm of two is held in a leading part, so short that `k` times
it is exact, and a rest. The exponential of `r` comes from a rational approximation and is scaled by
`2 ^ k` at the end, rounding once more where the result leaves the normal range.

The order of the operations is part of the definition, since each of them rounds.
-/

namespace BatteryCare.Single

/-- Leading part of the natural logarithm of two. -/
def lnTwoHigh : Single := 0.693145751953125

/-- What the leading part leaves of the natural logarithm of two. -/
def lnTwoLow : Single := 1.42860676533018704503775e-6

/-- One over the natural logarithm of two. -/
def invLnTwo : Single := 1.44269502162933349609375

/-- First coefficient of the rational approximation. -/
def expFirst : Single := 1.6666625440e-1

/-- Second coefficient of the rational approximation. -/
def expSecond : Single := -2.7667332906e-3

/-- An argument split as `twos * ln 2 + (high - low)`, with `high - low` small. -/
structure Reduced where
  /-- Halvings of the result. -/
  halvings : Nat
  high : Single
  low : Single

/-- Takes the multiple of `ln 2` out of an argument that is not positive. Up to half of `ln 2` there
is nothing to take; below three halves of it, one. -/
def reduce (x : Single) : Reduced :=
  if x.abs ≤ 0.3465735912322998046875 then ⟨0, x, 0⟩
  else
    let halvings :=
      if x.abs ≤ 1.03972077369689941406250 then 1
      else (-(invLnTwo * x - 0.5)).toNatUpTo 150
    ⟨halvings, x + ofNat halvings * lnTwoHigh, -(ofNat halvings * lnTwoLow)⟩

/-- `e ^ x` for an `x` that is not positive. -/
def expOfNonpos (x : Single) : Single :=
  if 103.97208404541015625 ≤ x.abs then 0
  else if x.abs ≤ 0.0001220703125 then 1 + x
  else
    let ⟨halvings, high, low⟩ := x.reduce
    let rest := high - low
    let square := rest * rest
    let remainder := rest - square * (expFirst + square * expSecond)
    let fraction := 1 + (rest * remainder / (2 - remainder) - low + high)
    fraction.scaleDown halvings

end BatteryCare.Single
