/-!
# Capital letters

The capital form of a text as far as it consists of ASCII letters. A few characters beyond ASCII
have such a capital form: two single letters and the joined forms of two or three.
-/

namespace ResultChunks.Text

/-- Characters beyond ASCII whose capital form is ASCII, by code point. -/
def asciiCapitals : List (Nat × String) :=
  [(0xdf, "SS"), (0x131, "I"), (0x17f, "S"), (0xfb00, "FF"), (0xfb01, "FI"), (0xfb02, "FL"),
   (0xfb03, "FFI"), (0xfb04, "FFL"), (0xfb05, "ST"), (0xfb06, "ST")]

/-- The capital form of a character. -/
def capital (c : Char) : List Char :=
  match asciiCapitals.lookup c.toNat with
  | some s => s.toList
  | none => [c.toUpper]

/-- The capital form of a text. -/
def capitals (s : String) : String := String.ofList (s.toList.flatMap capital)

end ResultChunks.Text
