import ResultChunks.Text.Hex

/-!
# JSON values

A value keeps what reading it strictly may still depend on: the literal of a number, and the fields
of an object in their order with repeated names. A string literal may hold an escape that names no
character; such a literal is a value, but it is no text.
-/

namespace ResultChunks

/-- A JSON value. -/
inductive Json where
  | null
  | bool (b : Bool)
  | number (literal : String)
  | text (s : String)
  /-- A string literal that stands for no text. -/
  | noText
  | array (items : List Json)
  | object (fields : List (String × Json))
deriving Repr, Inhabited

namespace Json

/-- A whole number. -/
def ofInt (n : Int) : Json := .number (toString n)

/-- A natural number. -/
def ofNat (n : Nat) : Json := .number (toString n)

/-- A value, or null. -/
def ofOption (v : Option Json) : Json := v.getD .null

/-! ## Writing -/

/-- A character inside a string literal. -/
def escapeChar (c : Char) : List Char :=
  if c = '"' then ['\\', '"']
  else if c = '\\' then ['\\', '\\']
  else if c.toNat < 32 then
    ['\\', 'u', '0', '0', Hex.digit (c.toNat / 16), Hex.digit (c.toNat % 16)]
  else [c]

/-- A string literal. -/
def literal (s : String) : String := "\"" ++ String.ofList (s.toList.flatMap escapeChar) ++ "\""

mutual

/-- The text of a value, without blanks. -/
def render : Json → String
  | null => "null"
  | bool b => if b then "true" else "false"
  | number l => l
  | text s => literal s
  | noText => "\"\\ud800\""
  | array items => "[" ++ ",".intercalate (renderItems items) ++ "]"
  | object fields => "\x7b" ++ ",".intercalate (renderFields fields) ++ "\x7d"

/-- The texts of the items of an array. -/
def renderItems : List Json → List String
  | [] => []
  | v :: vs => v.render :: renderItems vs

/-- The texts of the fields of an object. -/
def renderFields : List (String × Json) → List String
  | [] => []
  | (k, v) :: fs => (literal k ++ ":" ++ v.render) :: renderFields fs

end

end Json

end ResultChunks
