import ResultChunks.Number.Binary64

/-!
# The shortest decimal that reads back

Around each finite number lies the interval of reals that round to it; its ends belong to it when
the significand is even. Among the decimals in that interval the printed one has the fewest digits,
and of those it is the nearest to the number, the larger one in a tie. It is written out in full,
without an exponent.
-/

namespace ResultChunks.Binary64

/-- The reals that round to a number, in quarters of a power of two: value, lower and upper end. -/
structure Rounding where
  value : Nat
  lower : Nat
  upper : Nat
  closed : Bool
  /-- The unit is `num / den`. -/
  num : Nat
  den : Nat

/-- The rounding interval of a positive finite number. -/
def rounding (x : Binary64) : Rounding :=
  let m := x.significand
  let gap := if x.fractionField = 0 && 1 < x.exponentField then 1 else 2
  { value := 4 * m, lower := 4 * m - gap, upper := 4 * m + 2, closed := m % 2 = 0
    num := Nat.pow 2 x.scale, den := Nat.pow 2 1076 }

/-- Does `n * 10 ^ e` round to the number? -/
def Rounding.contains (r : Rounding) (n : Nat) (e : Int) : Bool :=
  let left := n * Nat.pow 10 e.toNat * r.den
  let right (k : Nat) := k * r.num * Nat.pow 10 (-e).toNat
  if r.closed then right r.lower ≤ left && left ≤ right r.upper
  else right r.lower < left && left < right r.upper

/-- The point of the grid of powers `10 ^ e` next below the number, and whether the number lies
nearer to that point than to the one above it. -/
def Rounding.below (r : Rounding) (e : Int) : Nat × Bool :=
  let num := r.value * r.num * Nat.pow 10 (-e).toNat
  let den := r.den * Nat.pow 10 e.toNat
  (num / den, 2 * (num % den) < den)

/-- The nearest point of a grid that rounds to the number. -/
def Rounding.onGrid (r : Rounding) (e : Int) : Option Nat :=
  let (n, nearer) := r.below e
  let first := if nearer then n else n + 1
  let second := if nearer then n + 1 else n
  if r.contains first e then some first else if r.contains second e then some second else none

/-- Digits and power of ten, from the coarsest grid on which the interval has a point. -/
def Rounding.search (r : Rounding) : Nat → Int → Nat × Int
  | 0, e => (0, e)
  | fuel + 1, e =>
    match r.onGrid e with
    | some n => (n, e)
    | none => r.search fuel (e - 1)

/-- The digits and the power of ten of the shortest decimal. Grids run from `10 ^ 309` down. -/
def shortest (x : Binary64) : Nat × Int := x.rounding.search 640 309

/-- A decimal written out in full. -/
def positional (digits : Nat) (exponent : Int) : String :=
  let ds := (toString digits).toList
  if 0 ≤ exponent then String.ofList (ds ++ List.replicate exponent.toNat '0')
  else
    let places := (-exponent).toNat
    let padded := List.replicate (places + 1 - ds.length) '0' ++ ds
    let whole := padded.length - places
    String.ofList (padded.take whole ++ '.' :: padded.drop whole)

/-- The printed form. -/
def text (x : Binary64) : String :=
  if x.isNaN then "NaN"
  else
    let sign := if x.isNegative then "-" else ""
    if !x.isFinite then sign ++ "inf"
    else if x.magnitude = 0 then sign ++ "0"
    else
      let (digits, exponent) := x.shortest
      sign ++ positional digits exponent

end ResultChunks.Binary64
