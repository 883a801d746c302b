/-!
# Bytes as hexadecimal text

Two digits for each byte, small letters when written and either case when read.
-/

namespace ResultChunks.Hex

/-- A digit. -/
def digit (n : Nat) : Char :=
  if n < 10 then Char.ofNat ('0'.toNat + n) else Char.ofNat ('a'.toNat + (n - 10))

/-- The value of a digit. -/
def value? (c : Char) : Option Nat :=
  if '0' ≤ c && c ≤ '9' then some (c.toNat - '0'.toNat)
  else if 'a' ≤ c && c ≤ 'f' then some (c.toNat - 'a'.toNat + 10)
  else if 'A' ≤ c && c ≤ 'F' then some (c.toNat - 'A'.toNat + 10)
  else none

/-- The text of some bytes. -/
def render (bs : List UInt8) : String :=
  String.ofList (bs.flatMap fun b => [digit (b.toNat / 16), digit (b.toNat % 16)])

/-- The bytes of pairs of digits. -/
def bytesOf? : List Char → Option (List UInt8)
  | [] => some []
  | a :: b :: rest => do
    let x ← value? a
    let y ← value? b
    let bs ← bytesOf? rest
    some (UInt8.ofNat (x * 16 + y) :: bs)
  | [_] => none

/-- The bytes that a text stands for. -/
def parse? (s : String) : Option (List UInt8) := bytesOf? s.toList

end ResultChunks.Hex
