import ScopeScript.Number.Binary64

/-!
# Numbers as decimal text

Decimal text is read by rounding once, to the nearest double, and written with **the fewest digits
that read back as the same number**: the value's two neighbours are tried on ever finer decimal
grids, and the first grid on which one of them reads back settles the digits. Numbers are always
written positionally, however many zeros that takes.

## Main definitions

* `ScopeScript.Decimal`: digits and the place of the last one.
* `ScopeScript.Decimal.ofNumeral`: the decimal that a numeral spells.
* `ScopeScript.Decimal.shortest`: the shortest decimal that reads back as a given number.
* `ScopeScript.NumberStyle`: the words for what has no digits, and `ScopeScript.NumberStyle.write`.
-/

namespace ScopeScript

/-- A decimal number `digits · 10 ^ place`. -/
structure Decimal where
  /-- All digits, read as one natural number. -/
  digits : Nat
  /-- The power of ten that the last digit counts. -/
  place : Int
deriving DecidableEq

namespace Decimal

open Binary64

/-- The code of the double **nearest** to the decimal. -/
def nearest (d : Decimal) : Nat :=
  nearestCode (d.digits * Nat.pow 10 d.place.toNat) (Nat.pow 10 (-d.place).toNat)

/-- The decimal that a numeral spells: its digits up to the second point, if it has two, the first
point marking the place of the units. -/
def ofNumeral (cs : List Char) : Decimal :=
  let whole := cs.takeWhile (· ≠ '.')
  let fraction := ((cs.dropWhile (· ≠ '.')).drop 1).takeWhile (· ≠ '.')
  ⟨Nat.ofDigitChars 10 (whole ++ fraction) 0, -(fraction.length : Int)⟩

/-- The decimal written **positionally**: zeros fill up to the units on either side, and there is a
point only if there are places behind it. -/
def positional (d : Decimal) : List Char :=
  let places := (-d.place).toNat
  let written := Nat.toDigits 10 d.digits ++ List.replicate d.place.toNat '0'
  let padded := List.replicate (places + 1 - written.length) '0' ++ written
  if places = 0 then padded
  else padded.take (padded.length - places) ++ '.' :: padded.drop (padded.length - places)

/-- The two multiples of `10 ^ place` **around the magnitude** of the code `n`, the nearer one
first; of two equally near ones the upper. -/
def neighbours (n : Nat) (place : Int) : List Decimal :=
  let num := quanta n * Nat.pow 10 (-place).toNat
  let den := stepsPerUnit * Nat.pow 10 place.toNat
  let lower : Decimal := ⟨num / den, place⟩
  let upper : Decimal := ⟨num / den + 1, place⟩
  if 2 * (num % den) < den then [lower, upper] else [upper, lower]

/-- The places worth trying for the code `n`, **coarsest first**. The first lies above the leading
digit, and seventeen digits always suffice; a decimal logarithm taken from the binary one is at
most two places too high. -/
def places (n : Nat) : List Int :=
  let top : Int := ((quanta n).log2 + 1 - 1074 : Int) * 30103 / 100000 + 2
  (List.range 21).map fun i : Nat => top - (i : Int)

/-- The magnitude of the code `n` with **all its digits**. -/
def exact (n : Nat) : Decimal :=
  ⟨quanta n * Nat.pow 5 1074, -1074⟩

/-- The **shortest decimal** that reads back as the code `n`, and of those the nearest to it. -/
def shortest (n : Nat) : Decimal :=
  let found := (places n).findSome? fun place => (neighbours n place).find? fun d => d.nearest = n
  found.getD (exact n)

/-- What `Decimal.shortest` gives **reads back**, unless no grid had a neighbour that does. -/
theorem nearest_shortest (n : Nat) :
    (shortest n).nearest = n ∨ shortest n = exact n := by
  unfold shortest
  cases h : (places n).findSome? fun place =>
      (neighbours n place).find? fun d => decide (d.nearest = n) with
  | none => exact Or.inr rfl
  | some d =>
    obtain ⟨place, -, hd⟩ := List.exists_of_findSome?_eq_some h
    exact Or.inl (by simpa using List.find?_some hd)

end Decimal

/-- The words that stand for **numbers without digits**. -/
structure NumberStyle where
  /-- The word for a number beyond the largest finite one. -/
  infinity : String
  /-- The word for a zero whose sign bit is set. -/
  negativeZero : String

namespace NumberStyle

open Binary64

/-- How programs **print** numbers: infinities have a name, and zero has no sign. -/
def printed : NumberStyle := ⟨"Infinity", "0"⟩

/-- How number **literals** are shown when a program is listed. -/
def listed : NumberStyle := ⟨"inf", "-0"⟩

/-- The text of a magnitude that is not zero and may be infinite. -/
def magnitude (style : NumberStyle) (n : Nat) : String :=
  if n = infinityCode then style.infinity else String.ofList (Decimal.shortest n).positional

/-- A number **as text**: `NaN`, or the words of the style, or the shortest digits that read
back. -/
def write (style : NumberStyle) (x : Float) : String :=
  if infinityCode < code x then "NaN"
  else if code x = 0 then (if isNegative x then style.negativeZero else "0")
  else if isNegative x then "-" ++ style.magnitude (code x)
  else style.magnitude (code x)

end NumberStyle

end ScopeScript
