import ResultChunks.Time.Duration

/-!
# Instants of calendar time

A timestamp is a count of seconds since the start of 1970 together with nanoseconds. During a leap
second the nanoseconds run on past one billion, so `secs` stays the second the leap second belongs
to and timestamps still compare field by field.

Calendar dates follow the Gregorian rules, extended without change to every year.
-/

namespace ResultChunks

/-- An instant: seconds since the epoch, and nanoseconds, which pass `10 ^ 9` in a leap second. -/
structure Timestamp where
  secs : Int
  nanos : Nat
deriving DecidableEq, Repr, Inhabited

namespace Timestamp

/-- Later or the same: seconds decide, then nanoseconds. -/
def notBefore (a b : Timestamp) : Bool :=
  b.secs < a.secs || (b.secs == a.secs && b.nanos ≤ a.nanos)

/-- The instant a number of seconds later. -/
def addSecs (t : Timestamp) (n : Int) : Timestamp := { t with secs := t.secs + n }

/-! ## Dates -/

/-- Leap years: every fourth, but of the hundreds only every fourth. -/
def isLeapYear (year : Int) : Bool :=
  year % 4 == 0 && (year % 100 != 0 || year % 400 == 0)

/-- The length of a month. -/
def daysInMonth (year : Int) (month : Nat) : Nat :=
  if month == 2 then (if isLeapYear year then 29 else 28)
  else if month == 4 || month == 6 || month == 9 || month == 11 then 30
  else 31

/-- Days from 1970-01-01 to a date. March starts the counted year, so the leap day comes last. -/
def daysFromEpoch (year : Int) (month day : Nat) : Int :=
  let y := if month ≤ 2 then year - 1 else year
  let m : Int := if month ≤ 2 then month + 9 else month - 3
  365 * y + y / 4 - y / 100 + y / 400 + (153 * m + 2) / 5 + day - 719469

/-- The first day with a date. Dates go from year -262143 to year 262142. -/
def firstDay : Int := daysFromEpoch (-262143) 1 1

/-- The last day with a date. -/
def lastDay : Int := daysFromEpoch 262142 12 31

/-- Seconds in a day. -/
def perDay : Int := 86400

/-- The instant has a date. -/
def hasDate (t : Timestamp) : Bool := firstDay ≤ t.secs / perDay && t.secs / perDay ≤ lastDay

/-- Instants of the first eight million million seconds from the epoch on have a date. -/
theorem hasDate_of_secs {t : Timestamp} (h : 0 ≤ t.secs) (hle : t.secs ≤ 8000000000000) :
    t.hasDate = true := by
  have hfirst : firstDay ≤ 0 := by decide
  have hlast : 8000000000000 / 86400 ≤ lastDay := by decide
  unfold hasDate perDay
  rw [Bool.and_eq_true, decide_eq_true_eq, decide_eq_true_eq]
  omega

/-- The instant a number of milliseconds after the epoch, if it has a date. -/
def ofMillis? (ms : Int) : Option Timestamp :=
  let t : Timestamp := ⟨ms / 1000, (ms % 1000).toNat * Duration.perMilli⟩
  if t.hasDate then some t else none

/-- The instant a number of seconds later, if it has a date. -/
def addSecs? (t : Timestamp) (n : Int) : Option Timestamp :=
  if (t.addSecs n).hasDate then some (t.addSecs n) else none

/-- The instant at a whole second. -/
def ofSecs (secs : Int) : Timestamp := ⟨secs, 0⟩

end Timestamp

end ResultChunks
