import ResultChunks.Json.Record

/-!
# Fields of an object

Reading an object whose fields are optional: a field that is missing or null has its default, and so
has one of another type. Of fields of one name the last counts.
-/

namespace ResultChunks.Json

/-- The value of a field that is there and not null. -/
def field? (j : Json) (name : String) : Option Json :=
  match j with
  | .object fields =>
    match fields.reverse.lookup name with
    | some .null => none
    | v => v
  | _ => none

/-- The value of a field, or null. -/
def field (j : Json) (name : String) : Json := (j.field? name).getD .null

/-- A whole number. -/
def toInt? : Json → Option Int
  | .number l => intOfLiteral? l
  | _ => none

/-- A whole number in a field, if there is one. -/
def intField? (j : Json) (name : String) : Option Int := (j.field? name).bind toInt?

/-- A whole number in a field, or a default. -/
def intField (j : Json) (name : String) (default : Int := 0) : Int :=
  (j.intField? name).getD default

/-- A natural number in a field, or a default. -/
def natField (j : Json) (name : String) (default : Nat := 0) : Nat :=
  ((j.intField? name).map Int.toNat).getD default

/-- A truth value in a field, or a default. -/
def boolField (j : Json) (name : String) (default : Bool := false) : Bool :=
  ((j.field? name).bind bool?).getD default

/-- A text in a field, if there is one. -/
def textField? (j : Json) (name : String) : Option String := (j.field? name).bind text?

/-- A text in a field, or a default. -/
def textField (j : Json) (name : String) (default : String := "") : String :=
  (j.textField? name).getD default

/-- The items of an array; other values have none. -/
def elements (j : Json) : List Json := j.items?.getD []

/-- The items of an array in a field. -/
def listField (j : Json) (name : String) : List Json := (j.field name).elements

/-- The fields of an object; other values have none. -/
def entries : Json → List (String × Json)
  | .object fields => fields
  | _ => []

/-- The fields of an object that hold texts. -/
def textEntries (j : Json) : List (String × String) :=
  j.entries.filterMap fun (name, v) => v.text?.map fun s => (name, s)

end ResultChunks.Json
