import ResultChunks.Number.Binary64
import ResultChunks.Table.Batch

/-!
# Cells of a row

A cell is seen through accessors for a few plain types. An accessor answers when the column's type
is one it covers and the cell is there; whole numbers also answer as floating point numbers.
-/

namespace ResultChunks

/-- A cell together with the type of its column. -/
structure Cell where
  type : ColumnType
  value : Option type.Cell

namespace Cell

/-- There is no value. -/
def isNull (c : Cell) : Bool := c.value.isNone

/-- A signed whole number of at most 64 bits. -/
def asInt : Cell → Option Int
  | ⟨.int8, v⟩ => v.map fun (n : Int8) => n.toInt
  | ⟨.int16, v⟩ => v.map fun (n : Int16) => n.toInt
  | ⟨.int32, v⟩ => v.map fun (n : Int32) => n.toInt
  | ⟨.int64, v⟩ => v.map fun (n : Int64) => n.toInt
  | _ => none

/-- A floating point number. -/
def asFloat : Cell → Option Binary64
  | ⟨.float32, v⟩ => v.map fun (bits : UInt32) => Binary64.ofBinary32 bits
  | ⟨.float64, v⟩ => v.map fun (bits : UInt64) => ⟨bits⟩
  | c => c.asInt.map Binary64.ofInt

/-- A text. -/
def asText : Cell → Option String
  | ⟨.utf8, v⟩ => v
  | ⟨.largeUtf8, v⟩ => v
  | _ => none

/-- A truth value. -/
def asBool : Cell → Option Bool
  | ⟨.boolean, v⟩ => v
  | _ => none

/-- Bytes. -/
def asBytes : Cell → Option (List UInt8)
  | ⟨.binary, v⟩ => v
  | _ => none

end Cell

/-- The cell of a column in a row. -/
def Column.cell? (c : Column) (row : Nat) : Option Cell :=
  (c.cells[row]?).map fun v => ⟨c.type, v⟩

namespace Batch

/-- The cell in a column and row. -/
def cell? (b : Batch) (column row : Nat) : Option Cell :=
  (b.columns[column]?).bind fun c => c.cell? row

/-- The name of a column. -/
def columnName? (b : Batch) (column : Nat) : Option String :=
  (b.columns[column]?).map Column.name

end Batch

/-- A row of a batch. -/
structure RowView where
  batch : Batch
  row : Nat
deriving DecidableEq

namespace RowView

/-- The cell in a column. -/
def cell? (v : RowView) (column : Nat) : Option Cell := v.batch.cell? column v.row

/-- The name of a column. -/
def columnName? (v : RowView) (column : Nat) : Option String := v.batch.columnName? column

/-- There is no value in a column; outside the columns there is none either. -/
def isNull (v : RowView) (column : Nat) : Bool := ((v.cell? column).map Cell.isNull).getD true

end RowView

end ResultChunks
