/-!
# Durations

A duration is a whole number of nanoseconds. Sums are exact; the range a clock can hold, below
`2 ^ 64` seconds, is a predicate of its own, so that a rule which would leave the range says so
(`add?`) instead of hiding it in the arithmetic.

The printed form names the largest unit of s, ms, µs and ns that is at least one, with the exact
decimal fraction and no trailing zeros.
-/

namespace ResultChunks

/-- A span of time in whole nanoseconds. -/
structure Duration where
  nanos : Nat
deriving DecidableEq, Repr, Inhabited

namespace Duration

/-- Nanoseconds in one second. -/
def perSecond : Nat := 1000000000

/-- Nanoseconds in one millisecond. -/
def perMilli : Nat := 1000000

/-- Nanoseconds in one microsecond. -/
def perMicro : Nat := 1000

/-- No time at all. -/
def zero : Duration := ⟨0⟩

/-- A whole number of seconds. -/
def ofSecs (n : Nat) : Duration := ⟨n * perSecond⟩

/-- A whole number of milliseconds. -/
def ofMillis (n : Nat) : Duration := ⟨n * perMilli⟩

/-- The first nanosecond count that is out of range. -/
def limit : Nat := Nat.pow 2 64 * perSecond

/-- Durations a clock can hold: fewer than `2 ^ 64` seconds. -/
def InRange (d : Duration) : Prop := d.nanos < limit

instance (d : Duration) : Decidable d.InRange := inferInstanceAs (Decidable (_ < _))

/-- The longest duration in range. -/
def longest : Duration := ⟨limit - 1⟩

/-- Durations compare by their length. -/
instance : LE Duration := ⟨fun a b => a.nanos ≤ b.nanos⟩

/-- Durations compare by their length. -/
instance : LT Duration := ⟨fun a b => a.nanos < b.nanos⟩

instance (a b : Duration) : Decidable (a ≤ b) := inferInstanceAs (Decidable (a.nanos ≤ b.nanos))

instance (a b : Duration) : Decidable (a < b) := inferInstanceAs (Decidable (a.nanos < b.nanos))

/-- The exact sum. -/
instance : Add Duration := ⟨fun a b => ⟨a.nanos + b.nanos⟩⟩

/-- The sum, unless it leaves the range. -/
def add? (a b : Duration) : Option Duration :=
  if (a + b).InRange then some (a + b) else none

/-- The shorter of two durations. -/
def shorter (a b : Duration) : Duration := if b ≤ a then b else a

/-- A multiple, cut off at the longest duration in range. -/
def mulCapped (d : Duration) (k : Nat) : Duration := shorter ⟨d.nanos * k⟩ longest

/-- Whole seconds in a duration. -/
def secs (d : Duration) : Nat := d.nanos / perSecond

/-- Nanoseconds beyond the whole seconds. -/
def subsecNanos (d : Duration) : Nat := d.nanos % perSecond

/-- Whole milliseconds in a duration. -/
def millis (d : Duration) : Nat := d.nanos / perMilli

@[simp] theorem nanos_add (a b : Duration) : (a + b).nanos = a.nanos + b.nanos := rfl

theorem add?_eq_some_iff {a b c : Duration} : add? a b = some c ↔ (a + b).InRange ∧ c = a + b := by
  unfold add?
  split <;> simp_all [eq_comm]

theorem add?_eq_none_iff {a b : Duration} : add? a b = none ↔ ¬(a + b).InRange := by
  unfold add?
  split <;> simp_all

/-! ## Printed form -/

/-- Drop the zeros a list of digits ends in. -/
def dropTrailingZeros (ds : List Char) : List Char :=
  (ds.reverse.dropWhile (· == '0')).reverse

/-- The decimal digits of `n`, filled up with zeros on the left to `width`. -/
def paddedDigits (width n : Nat) : List Char :=
  let ds := (toString n).toList
  List.replicate (width - ds.length) '0' ++ ds

/-- A count of units with a fraction of `width` decimal places, trailing zeros left out. -/
def inUnits (whole rest width : Nat) (unit : String) : String :=
  let fraction := dropTrailingZeros (paddedDigits width rest)
  let point := if fraction.isEmpty then "" else "." ++ String.ofList fraction
  toString whole ++ point ++ unit

/-- The printed form, such as `1.5s`, `20ms`, `1.5µs` or `0ns`. -/
def text (d : Duration) : String :=
  if perSecond ≤ d.nanos then inUnits (d.nanos / perSecond) (d.nanos % perSecond) 9 "s"
  else if perMilli ≤ d.nanos then inUnits (d.nanos / perMilli) (d.nanos % perMilli) 6 "ms"
  else if perMicro ≤ d.nanos then inUnits (d.nanos / perMicro) (d.nanos % perMicro) 3 "µs"
  else toString d.nanos ++ "ns"

end Duration

end ResultChunks
