import ResultChunks.Json.Reader
import ResultChunks.Text.Numeral

/-!
# Records in JSON

A record is an object, whose unknown fields are passed over and whose known fields may not be
repeated, or an array of the record's fields in their order, from whose end fields may be missing.
`slots?` brings both forms to one: the value of each field, if there is one. A field is then read by
the rule for its type. Whole numbers are literals of digits with an optional minus; a negative zero
and anything with a point or a power of ten is no whole number.
-/

namespace ResultChunks.Json

/-- The value of a field that may occur once. -/
def uniqueField? (fields : List (String × Json)) (name : String) : Option (Option Json) :=
  match fields.filter (fun f => f.1 = name) with
  | [] => some none
  | [f] => some (some f.2)
  | _ => none

/-- The values of a record's fields, in the order of `names`. -/
def slots? (names : List String) : Json → Option (List (Option Json))
  | .object fields => names.mapM (uniqueField? fields)
  | .array items =>
    if items.length ≤ names.length then
      some (items.map some ++ List.replicate (names.length - items.length) none)
    else none
  | _ => none

/-- The value at a position; a missing value stays missing. -/
def slot (values : List (Option Json)) (i : Nat) : Option Json := (values[i]?).join

/-- A text. -/
def text? : Json → Option String
  | .text s => some s
  | _ => none

/-- A truth value. -/
def bool? : Json → Option Bool
  | .bool b => some b
  | _ => none

/-- A whole number from its literal. -/
def intOfLiteral? (literal : String) : Option Int :=
  match literal.toList with
  | '-' :: ds => do
    let n ← Text.digits? ds
    if n = 0 then none else some (-(n : Int))
  | ds => (Text.digits? ds).map Int.ofNat

/-- A whole number within bounds. -/
def intIn? (lo hi : Int) : Json → Option Int
  | .number l => do
    let n ← intOfLiteral? l
    if lo ≤ n && n ≤ hi then some n else none
  | _ => none

/-- A whole number of 64 bits. -/
def int64? : Json → Option Int := intIn? (-9223372036854775808) 9223372036854775807

/-- A whole number of 32 bits. -/
def int32? : Json → Option Int := intIn? (-2147483648) 2147483647

/-- The items of an array. -/
def items? : Json → Option (List Json)
  | .array items => some items
  | _ => none

/-- A list of values that are all read by one rule. -/
def listOf? {α : Type} (read : Json → Option α) (v : Json) : Option (List α) := do
  let items ← v.items?
  items.mapM read

/-- Put an entry into a list of entries; an entry of the same name gives way. -/
def putEntry (entries : List (String × String)) (name value : String) : List (String × String) :=
  entries.filter (fun e => e.1 ≠ name) ++ [(name, value)]

/-- A table of texts; the last entry of a name counts. -/
def textTable? : Json → Option (List (String × String))
  | .object fields =>
    fields.foldlM (fun entries f => f.2.text?.map (putEntry entries f.1)) []
  | _ => none

/-- A field that has to be there. -/
def required? {α : Type} (read : Json → Option α) (v : Option Json) : Option α := v.bind read

/-- A field that may be missing or null. -/
def optional? {α : Type} (read : Json → Option α) : Option Json → Option (Option α)
  | none => some none
  | some .null => some none
  | some v => (read v).map some

/-- A field that may be missing, but not null. -/
def defaulted? {α : Type} (read : Json → Option α) (value : α) : Option Json → Option α
  | none => some value
  | some v => read v

end ResultChunks.Json
