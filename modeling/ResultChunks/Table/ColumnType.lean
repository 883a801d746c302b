/-!
# Column types

The types a column of a batch can have, and for each the values it holds. Floating point values are
kept as their bits, so that two columns are equal when they hold the same bits. A stream may have
columns of more types than are told apart here, such as decimals or lists; of such a type only its
name is known, and its values are handed on as bytes.
-/

namespace ResultChunks

/-- The type of a column. -/
inductive ColumnType where
  | boolean
  | int8
  | int16
  | int32
  | int64
  | uint8
  | float32
  | float64
  | utf8
  | largeUtf8
  | binary
  | largeBinary
  | date32
  | timestamp
  /-- Any other type, with the name that it goes by. -/
  | other (name : String)
deriving DecidableEq, Repr, Inhabited

namespace ColumnType

/-- The types with cells of their own. -/
def all : List ColumnType :=
  [boolean, int8, int16, int32, int64, uint8, float32, float64, utf8, largeUtf8, binary,
    largeBinary, date32, timestamp]

/-- The name used in messages. -/
def name : ColumnType → String
  | boolean => "Boolean"
  | int8 => "Int8"
  | int16 => "Int16"
  | int32 => "Int32"
  | int64 => "Int64"
  | uint8 => "UInt8"
  | float32 => "Float32"
  | float64 => "Float64"
  | utf8 => "Utf8"
  | largeUtf8 => "LargeUtf8"
  | binary => "Binary"
  | largeBinary => "LargeBinary"
  | date32 => "Date32"
  | timestamp => "Timestamp(Microsecond, None)"
  | other name => name

/-- The values a column of this type holds. Dates count days and timestamps microseconds. -/
abbrev Cell : ColumnType → Type
  | boolean => Bool
  | int8 => Int8
  | int16 => Int16
  | int32 => Int32
  | int64 => Int64
  | uint8 => UInt8
  | float32 => UInt32
  | float64 => UInt64
  | utf8 => String
  | largeUtf8 => String
  | binary => List UInt8
  | largeBinary => List UInt8
  | date32 => Int32
  | timestamp => Int64
  | other _ => List UInt8

instance (t : ColumnType) : DecidableEq t.Cell := by
  cases t <;> simp only [Cell] <;> infer_instance

end ColumnType

end ResultChunks
