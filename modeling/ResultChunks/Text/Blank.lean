/-!
# White space

The characters with the Unicode property `White_Space`, and text without them at either end.
-/

namespace ResultChunks.Text

/-- The code points with the property `White_Space`. -/
def isBlank (c : Char) : Bool :=
  let n := c.toNat
  (0x9 ≤ n && n ≤ 0xd) || n == 0x20 || n == 0x85 || n == 0xa0 || n == 0x1680 ||
    (0x2000 ≤ n && n ≤ 0x200a) || n == 0x2028 || n == 0x2029 || n == 0x202f || n == 0x205f ||
    n == 0x3000

/-- Characters without the blanks at either end. -/
def trimChars (cs : List Char) : List Char :=
  ((cs.dropWhile isBlank).reverse.dropWhile isBlank).reverse

/-- Text without the blanks at either end. -/
def trim (s : String) : String := String.ofList (trimChars s.toList)

/-- Small letters for the capital letters of ASCII; all else stays. -/
def lowerAscii (s : String) : String := s.map Char.toLower

end ResultChunks.Text
