/-!
# Double-precision numbers, exactly

A number is a `Float`. What has to be exact about it is done on its **code**: the magnitude of a
double, read as a natural number. The code `n` stands for `quanta n` units of `2 ^ (-1074)`, the
smallest step of the format, so every finite double is a whole number of steps and all arithmetic
on it can be done in natural numbers. Codes are ordered as the magnitudes they stand for, and the
code after the last finite one is infinity.

## Main definitions

* `ScopeScript.Binary64.quanta`: the magnitude that a code stands for, in steps.
* `ScopeScript.Binary64.nearestCode`: the code nearest to a fraction, ties to the even one.
* `ScopeScript.Binary64.remainder`: the exact remainder of a division that truncates.
-/

namespace ScopeScript.Binary64

/-- The first code that stands for no finite number: **infinity**. -/
def infinityCode : Nat := 0x7FF0000000000000

/-- The number of steps in a unit. -/
def stepsPerUnit : Nat := 1 <<< 1074

/-- The number of codes in a **binade**, the numbers between two neighbouring powers of two:
`2 ^ 52`. -/
def binadeSize : Nat := 0x10000000000000

/-- The code at which the sign bit would be set: `2 ^ 63`. -/
def signBit : Nat := 0x8000000000000000

/-- The binary **significand** of a code: the stored bits, with the leading one unless the code is
below the first binade. -/
def significand (n : Nat) : Nat :=
  if n < binadeSize then n else binadeSize + n % binadeSize

/-- The power of two that scales the significand: the binade, the lowest two of which share a
scale. -/
def scale (n : Nat) : Nat :=
  n / binadeSize - 1

/-- The **magnitude** that the code `n` stands for, in steps of `2 ^ (-1074)`. -/
def quanta (n : Nat) : Nat :=
  significand n <<< scale n

/-- The quotient **rounded to the nearest** whole number, a half to the even neighbour. -/
def roundHalfEven (num den : Nat) : Nat :=
  let q := num / den
  match compare (2 * (num % den)) den with
  | .lt => q
  | .eq => q + q % 2
  | .gt => q + 1

/-- The code **nearest to the fraction** `num / den`, a tie going to the even code. A significand
that rounds up to the next binade carries into the binade of the code, which is the code wanted. -/
def nearestCode (num den : Nat) : Nat :=
  let steps := num * stepsPerUnit
  let binade := (steps / den).log2 - 52
  min infinityCode (binade * binadeSize + roundHalfEven steps (den <<< binade))

/-- The code of a number: its bits without the sign. -/
def code (x : Float) : Nat :=
  x.toBits.toNat % signBit

/-- The sign bit of a number is set. -/
def isNegative (x : Float) : Bool :=
  decide (signBit ≤ x.toBits.toNat)

/-- The number with the given sign and code. -/
def ofCode (negative : Bool) (n : Nat) : Float :=
  Float.ofBits (UInt64.ofNat (if negative then signBit + n else n))

/-- The number that is **not a number**. -/
def nan : Float :=
  Float.ofBits 0x7FF8000000000000

/-- The **remainder** of `x` by `y` when the quotient is cut off towards zero: it has the sign of
`x` and is exact. There is none when `x` is infinite or `y` is zero; dividing by an infinite `y`
leaves `x`. -/
def remainder (x y : Float) : Float :=
  if infinityCode ≤ code x ∨ infinityCode < code y ∨ code y = 0 then nan
  else if code y = infinityCode then x
  else ofCode (isNegative x) (nearestCode (quanta (code x) % quanta (code y)) stepsPerUnit)

end ScopeScript.Binary64
