import ResultChunks.Number.Binary64
import ResultChunks.Text.Numeral

/-!
# Reading decimal fractions

A decimal has an optional sign, digits with an optional point among them or at either end, and an
optional power of ten. At least one digit stands before the power. The infinities and the undefined
number have names, but no caller here can use them, so only finite numbers are read.
-/

namespace ResultChunks.Binary64

open Text

/-- A sign in front: whether it is a minus, and the rest. -/
def readSign : List Char → Bool × List Char
  | '-' :: s => (true, s)
  | '+' :: s => (false, s)
  | s => (false, s)

/-- The power of ten after the digits; nothing else may follow. -/
def readPower : List Char → Option Int
  | [] => some 0
  | c :: s =>
    if c = 'e' || c = 'E' then
      let (negative, s) := readSign s
      (digits? s).map fun n => if negative then -(n : Int) else n
    else none

/-- A finite decimal. -/
def parse? (cs : List Char) : Option Binary64 := do
  let (negative, s) := readSign cs
  let whole := s.takeWhile isDigit
  let s := s.drop whole.length
  let (part, s) := match s with
    | '.' :: t => (t.takeWhile isDigit, t.dropWhile isDigit)
    | t => ([], t)
  if whole.isEmpty && part.isEmpty then none
  else
    let power ← readPower s
    let x := ofDecimal negative (digitsValue (whole ++ part)) (power - part.length)
    if x.isFinite then some x else none

end ResultChunks.Binary64
