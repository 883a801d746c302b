import ResultChunks.Time.Timestamp

/-!
# Reading RFC 3339 timestamps

A timestamp is written `2099-01-01T12:34:56.789+05:30`. The letters may be small, a blank may stand
for the `T`, and any number of digits may follow the point, of which nine count. A second of 60 is
the leap second of its minute. Offsets run from -23:59 to +23:59, and their minus sign may also be
the typographic one.

Each reader takes the text in front of it and returns what it read with the rest.
-/

namespace ResultChunks.Rfc3339

/-- The value of a digit. -/
def digit? (c : Char) : Option Nat :=
  if '0' ≤ c && c ≤ '9' then some (c.toNat - '0'.toNat) else none

/-- Exactly `count` digits as a number. -/
def fixedDigits : Nat → Nat → List Char → Option (Nat × List Char)
  | 0, acc, s => some (acc, s)
  | _ + 1, _, [] => none
  | n + 1, acc, c :: s => do
    let d ← digit? c
    fixedDigits n (acc * 10 + d) s

/-- A number of exactly `count` digits within bounds. -/
def numberIn (count lo hi : Nat) (s : List Char) : Option (Nat × List Char) := do
  let (n, s) ← fixedDigits count 0 s
  if lo ≤ n && n ≤ hi then some (n, s) else none

/-- One given character. -/
def expect (c : Char) : List Char → Option (List Char)
  | d :: s => if d = c then some s else none
  | [] => none

/-- The mark between date and time. -/
def separator : List Char → Option (List Char)
  | 'T' :: s => some s
  | 't' :: s => some s
  | ' ' :: s => some s
  | _ => none

/-- The nanoseconds that a list of fraction digits stands for; nine digits count. -/
def nanosOfDigits (ds : List Char) : Nat :=
  (ds.take 9).foldl (fun n c => n * 10 + (c.toNat - '0'.toNat)) 0 * Nat.pow 10 (9 - ds.length)

/-- An optional fraction of a second. -/
def fraction : List Char → Option (Nat × List Char)
  | '.' :: s =>
    let ds := s.takeWhile (fun c => (digit? c).isSome)
    if ds.isEmpty then none else some (nanosOfDigits ds, s.drop ds.length)
  | s => some (0, s)

/-- The seconds east of the reference meridian in an `hh:mm` offset. -/
def offsetSeconds (s : List Char) : Option (Nat × List Char) := do
  let (h, s) ← numberIn 2 0 23 s
  let s ← expect ':' s
  let (m, s) ← numberIn 2 0 59 s
  some (h * 3600 + m * 60, s)

/-- The offset from the reference meridian, in seconds to the east. -/
def offset : List Char → Option (Int × List Char)
  | 'Z' :: s => some (0, s)
  | 'z' :: s => some (0, s)
  | '+' :: s => (offsetSeconds s).map fun (n, s) => ((n : Int), s)
  | '-' :: s => (offsetSeconds s).map fun (n, s) => (-(n : Int), s)
  | '−' :: s => (offsetSeconds s).map fun (n, s) => (-(n : Int), s)
  | _ => none

/-- Read a whole text as one timestamp. -/
def parse? (text : String) : Option Timestamp := do
  let (year, s) ← fixedDigits 4 0 text.toList
  let s ← expect '-' s
  let (month, s) ← numberIn 2 1 12 s
  let s ← expect '-' s
  let (day, s) ← numberIn 2 1 31 s
  let s ← separator s
  let (hour, s) ← numberIn 2 0 23 s
  let s ← expect ':' s
  let (minute, s) ← numberIn 2 0 59 s
  let s ← expect ':' s
  let (second, s) ← numberIn 2 0 60 s
  let (nanos, s) ← fraction s
  let (east, s) ← offset s
  if !s.isEmpty || Timestamp.daysInMonth year month < day then none
  else
    let leap := second == 60
    let ofDay : Int := hour * 3600 + minute * 60 + (if leap then 59 else second)
    let secs := Timestamp.daysFromEpoch year month day * Timestamp.perDay + ofDay - east
    some ⟨secs, nanos + if leap then Duration.perSecond else 0⟩

end ResultChunks.Rfc3339
