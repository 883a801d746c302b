/-!
# Decimal numerals

Reading whole numbers from text: one or more ASCII digits, with a plus sign allowed in front.
-/

namespace ResultChunks.Text

/-- An ASCII digit. -/
def isDigit (c : Char) : Bool := '0' ≤ c && c ≤ '9'

/-- The value of a list of digits. -/
def digitsValue (ds : List Char) : Nat := ds.foldl (fun n c => n * 10 + (c.toNat - '0'.toNat)) 0

/-- The value of a text of digits only; there has to be one. -/
def digits? (cs : List Char) : Option Nat :=
  if cs.isEmpty || !cs.all isDigit then none else some (digitsValue cs)

/-- Leave out one plus sign in front. -/
def dropPlus : List Char → List Char
  | '+' :: cs => cs
  | cs => cs

/-- A whole number below `bound`. -/
def natBelow? (bound : Nat) (cs : List Char) : Option Nat := do
  let n ← digits? (dropPlus cs)
  if n < bound then some n else none

end ResultChunks.Text
