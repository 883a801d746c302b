/-!
# Double precision numbers

A number is its 64 bits: sign, eleven bits of exponent, 52 bits of fraction. Everything here is
exact arithmetic on natural numbers. `ofRatio` rounds a quotient to the nearest number, a tie to
the even one; a decimal text, a whole number and a single precision number are quotients.
-/

namespace ResultChunks

/-- A double precision number, given by its bits. -/
structure Binary64 where
  bits : UInt64
deriving DecidableEq, Repr, Inhabited

namespace Binary64

/-- The sign bit. -/
def isNegative (x : Binary64) : Bool := Nat.pow 2 63 ≤ x.bits.toNat

/-- The exponent field. -/
def exponentField (x : Binary64) : Nat := x.bits.toNat / Nat.pow 2 52 % Nat.pow 2 11

/-- The fraction field. -/
def fractionField (x : Binary64) : Nat := x.bits.toNat % Nat.pow 2 52

/-- Neither infinite nor undefined. -/
def isFinite (x : Binary64) : Bool := x.exponentField < 2047

/-- Not a number. -/
def isNaN (x : Binary64) : Bool := x.exponentField == 2047 && x.fractionField != 0

/-- The absolute value of a finite number is `significand * 2 ^ (scale - 1074)`. -/
def significand (x : Binary64) : Nat :=
  if x.exponentField = 0 then x.fractionField else Nat.pow 2 52 + x.fractionField

/-- The power of two of the significand, counted from the smallest one. -/
def scale (x : Binary64) : Nat := x.exponentField - 1

/-- The absolute value in units of the smallest positive number. Infinity comes last. -/
def magnitude (x : Binary64) : Nat := x.significand * Nat.pow 2 x.scale

/-- The value in units of the smallest positive number. -/
def toUnits (x : Binary64) : Int := if x.isNegative then -(x.magnitude : Int) else x.magnitude

/-- Less than or equal. Nothing compares with an undefined number. -/
def le (x y : Binary64) : Bool := !x.isNaN && !y.isNaN && x.toUnits ≤ y.toUnits

/-- Put the fields together. -/
def pack (negative : Bool) (exponent fraction : Nat) : Binary64 :=
  ⟨UInt64.ofNat ((if negative then Nat.pow 2 63 else 0) + exponent * Nat.pow 2 52 + fraction)⟩

/-- Zero. -/
def zero : Binary64 := ⟨0⟩

/-- One. -/
def one : Binary64 := pack false 1023 0

/-- Infinity. -/
def infinity (negative : Bool) : Binary64 := pack negative 2047 0

/-- The quotient `num / den` rounded to a whole number, a tie to the even one. -/
def divNearest (num den : Nat) : Nat :=
  let q := num / den
  let r := num % den
  if 2 * r < den then q else if den < 2 * r then q + 1 else q + q % 2

/-- The power of two that gives the quotient `num / den` a significand of 53 bits, or the least. -/
def scaleFor (num den : Nat) : Nat :=
  let guess : Int := (num.log2 : Int) - den.log2 - 52 + 1074
  let g := (guess - 1).toNat
  -- the guess is one too low when the quotient's leading bits reach those of a power of two
  if num * Nat.pow 2 1074 / (den * Nat.pow 2 g) < Nat.pow 2 53 then g else g + 1

/-- The number nearest to `num / den`, a tie to the one with an even significand. -/
def ofRatio (negative : Bool) (num den : Nat) : Binary64 :=
  let s := scaleFor num den
  let m := divNearest (num * Nat.pow 2 1074) (den * Nat.pow 2 s)
  -- rounding up may carry into a new bit
  let (m, s) := if m = Nat.pow 2 53 then (Nat.pow 2 52, s + 1) else (m, s)
  if m < Nat.pow 2 52 then pack negative 0 m
  else if 2046 ≤ s then infinity negative
  else pack negative (s + 1) (m - Nat.pow 2 52)

/-- The number nearest to a whole number. -/
def ofInt (n : Int) : Binary64 := if n = 0 then zero else ofRatio (n < 0) n.natAbs 1

/-- The number nearest to `digits * 10 ^ exponent`. -/
def ofDecimal (negative : Bool) (digits : Nat) (exponent : Int) : Binary64 :=
  let size : Int := ((toString digits).length : Int) + exponent
  if digits = 0 || size < -330 then pack negative 0 0
  else if 310 < size then infinity negative
  else if 0 ≤ exponent then ofRatio negative (digits * Nat.pow 10 exponent.toNat) 1
  else ofRatio negative digits (Nat.pow 10 (-exponent).toNat)

/-- The number that 32 bits of a single precision number stand for; all of those have one. -/
def ofBinary32 (bits : UInt32) : Binary64 :=
  let n := bits.toNat
  let negative : Bool := Nat.pow 2 31 ≤ n
  let exponent := n / Nat.pow 2 23 % Nat.pow 2 8
  let fraction := n % Nat.pow 2 23
  if exponent = 255 then
    let isQuiet := fraction = 0 || Nat.pow 2 22 ≤ fraction
    pack negative 2047 ((if isQuiet then fraction else fraction + Nat.pow 2 22) * Nat.pow 2 29)
  else if exponent = 0 then
    if fraction = 0 then pack negative 0 0 else ofRatio negative fraction (Nat.pow 2 149)
  else pack negative (exponent + 896) (fraction * Nat.pow 2 29)

end Binary64

end ResultChunks
