import ResultChunks.Cursor.Cell
import ResultChunks.Report.Value

/-!
# Tables in reports

A batch is reported column by column; a cell of a row is reported with what each accessor makes of
it.
-/

namespace ResultChunks.Report

/-- A cell that is there. -/
def cell : (t : ColumnType) → t.Cell → Json
  | .boolean, (b : Bool) => .bool b
  | .int8, (n : Int8) => num n.toInt
  | .int16, (n : Int16) => num n.toInt
  | .int32, (n : Int32) => num n.toInt
  | .int64, (n : Int64) => num n.toInt
  | .uint8, (n : UInt8) => num n.toNat
  | .float32, (n : UInt32) => bits 4 n.toNat
  | .float64, (n : UInt64) => bits 8 n.toNat
  | .utf8, (s : String) => str s
  | .largeUtf8, (s : String) => str s
  | .binary, (bs : List UInt8) => bytes bs
  | .largeBinary, (bs : List UInt8) => bytes bs
  | .date32, (n : Int32) => num n.toInt
  | .timestamp, (n : Int64) => num n.toInt
  | .other _, (bs : List UInt8) => bytes bs

/-- What is reported of a field. -/
def fieldParts (f : Field) : List (String × Json) :=
  [("name", str f.name), ("type", str f.type.name), ("nullable", .bool f.nullable)]

/-- A schema. -/
def schema (s : Schema) : Json := arr (s.map fun f => obj (fieldParts f))

/-- A column. -/
def column (c : Column) : Json :=
  obj (fieldParts c.field ++ [("values", arr (c.cells.map (orNull (cell c.type))))])

/-- A batch. -/
def batch (b : Batch) : Json := obj [("columns", arr (b.columns.map column)), ("rows", num b.rows)]

/-- Batches. -/
def batches (bs : List Batch) : Json := arr (bs.map batch)

/-- What the accessors make of the cell in a column. -/
def accessors (v : RowView) (column : Nat) (c : Cell) : Json := obj
  [("name", orNull str (v.columnName? column)), ("type", str c.type.name), ("null", .bool c.isNull),
   ("i64", orNull num c.asInt), ("f64", orNull binary64 c.asFloat), ("str", orNull str c.asText),
   ("bool", orNull .bool c.asBool), ("bytes", orNull bytes c.asBytes)]

/-- A row, cell by cell. -/
def row (v : RowView) : Json :=
  arr ((List.range v.batch.columns.length).filterMap fun i => (v.cell? i).map (accessors v i))

/-- The first cell of a row by the first accessor that answers. -/
def firstCell (v : RowView) : Json :=
  match v.cell? 0 with
  | none => str "no column"
  | some c =>
    if c.isNull then .null
    else
      (((((c.asInt.map num).or (c.asText.map str)).or (c.asBool.map .bool)).or
        (c.asFloat.map binary64)).or (c.asBytes.map bytes)).getD (str "?")

end ResultChunks.Report
