import ResultChunks.Text.Blank
import ResultChunks.Text.Numeral
import ResultChunks.Text.Utf8
import ResultChunks.Time.Duration

/-!
# Header fields

A field has a name of token characters, which are compared in small letters, and a value of bytes
without controls. The one field that is read here is the wait that a server asks for.
-/

namespace ResultChunks.Http

/-- A header field. -/
structure HeaderField where
  name : String
  value : List UInt8
deriving DecidableEq, Repr, Inhabited

namespace HeaderField

/-- A character that a name may hold. -/
def isTokenChar (c : Char) : Bool :=
  ('0' ≤ c && c ≤ '9') || ('a' ≤ c && c ≤ 'z') || ('A' ≤ c && c ≤ 'Z') ||
    "!#$%&'*+-.^_|~\x60".toList.contains c

/-- May a text be a name? -/
def isName (s : String) : Bool := !s.isEmpty && s.toList.all isTokenChar

/-- A byte that a value may hold: a tab, and whatever is no control. -/
def isValueByte (b : UInt8) : Bool := b = 9 || (32 ≤ b && b ≠ 127)

/-- A field of texts, if both are what they should be. -/
def ofTexts? (name value : String) : Option HeaderField :=
  let bytes := Utf8.encode value
  if isName name && bytes.all isValueByte then some ⟨Text.lowerAscii name, bytes⟩ else none

/-- A value as text, if it shows in ASCII. -/
def visible? (value : List UInt8) : Option String :=
  if value.all fun b => b = 9 || (32 ≤ b && b < 127) then
    some (String.ofList (value.map fun b => Char.ofNat b.toNat))
  else none

/-- The number of whole seconds that a value of the field `retry-after` asks for. A date asks for
nothing. -/
def seconds? (value : List UInt8) : Option Duration := do
  let text ← visible? value
  let n ← Text.natBelow? (Nat.pow 2 64) (Text.trim text).toList
  some (.ofSecs n)

/-- The wait that the first of the values asks for. -/
def retryAfterOf (values : List (List UInt8)) : Option Duration := values.head?.bind seconds?

/-- The wait that a header asks for. -/
def retryAfter (fields : List HeaderField) : Option Duration :=
  retryAfterOf ((fields.filter fun f => f.name = "retry-after").map HeaderField.value)

end HeaderField

end ResultChunks.Http
