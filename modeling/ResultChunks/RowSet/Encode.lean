import ResultChunks.RowSet.Layout

/-!
# Writing a row-set

A batch is written when all its columns are of a kind with a tag and all its counts and lengths fit
into 32 bits. The bitmap has no more bytes than the rows need.

An array holds some value also where a cell is absent, in a slot that nobody looks at. Values of
fixed width are written as they stand in the slots, those of absent cells too. Absent texts and
bytes are written as empty ones, whatever their slots hold. A batch as modelled here does not know
what is in these slots, so `encodeOver` is told, and `encode` takes the placeholders that arrays have
there when they are built from optional values.
-/

namespace ResultChunks.RowSet

/-- A count or length in four bytes, if it fits. -/
def writeCount (what : Quantity) (n : Nat) : Except Fault (List UInt8) :=
  if n < Nat.pow 2 32 then .ok (Bytes.ofNat 4 n) else .error (.tooLarge what)

/-- A length and that many bytes. -/
def writeBlock (what : Quantity) (bs : List UInt8) : Except Fault (List UInt8) := do
  let n ← writeCount what bs.length
  .ok (n ++ bs)

/-- One value of a kind. -/
def writeValue : (k : Kind) → k.type.Cell → Except Fault (List UInt8)
  | .bool, (b : Bool) => .ok (Bytes.ofNat 1 b.toNat)
  | .int8, (n : Int8) => .ok (Bytes.ofNat 1 n.toUInt8.toNat)
  | .int16, (n : Int16) => .ok (Bytes.ofNat 2 n.toUInt16.toNat)
  | .int32, (n : Int32) => .ok (Bytes.ofNat 4 n.toUInt32.toNat)
  | .int64, (n : Int64) => .ok (Bytes.ofNat 8 n.toUInt64.toNat)
  | .float64, (n : UInt64) => .ok (Bytes.ofNat 8 n.toNat)
  | .utf8, (s : String) => writeBlock .text (Utf8.encode s)
  | .binary, (bs : List UInt8) => writeBlock .bytes bs

/-- What the slots of a column hold where cells are absent, by row and kind. -/
abbrev Slots := Nat → (k : Kind) → k.type.Cell

/-- What is written for an absent cell of a kind. -/
def absentValue (slot : (k : Kind) → k.type.Cell) : (k : Kind) → k.type.Cell
  | .utf8 => ""
  | .binary => []
  | k => slot k

/-- The cells of a column from a row on, one after the other. -/
def writeCells (k : Kind) (slots : Slots) : Nat → List (Option k.type.Cell) →
    Except Fault (List UInt8)
  | _, [] => .ok []
  | row, c :: cs => do
    let v ← writeValue k (c.getD (absentValue (slots row) k))
    let vs ← writeCells k slots (row + 1) cs
    .ok (v ++ vs)

/-- The null bitmap of some cells. -/
def bitmapOf {α : Type} (cs : List (Option α)) : List UInt8 :=
  Bytes.pack (cs.map fun c => c.isNone)

/-- A column of a kind. -/
def writeKind (name : String) (k : Kind) (slots : Slots) (cs : List (Option k.type.Cell)) :
    Except Fault (List UInt8) := do
  let name ← writeBlock .name (Utf8.encode name)
  let bitmap ← writeBlock .bitmap (bitmapOf cs)
  let values ← writeCells k slots 0 cs
  .ok (name ++ Bytes.ofNat 1 k.tag ++ bitmap ++ values)

/-- A column. -/
def writeColumn (slots : Slots) (c : Column) : Except Fault (List UInt8) :=
  match Kind.ofType? c.type with
  | none => .error (.unsupportedType c.type)
  | some ⟨k, h⟩ => writeKind c.name k slots (h ▸ c.cells)

/-- Columns from a number on, one after the other. -/
def writeColumns (slots : Nat → Slots) : Nat → List Column → Except Fault (List UInt8)
  | _, [] => .ok []
  | i, c :: cs => do
    let v ← writeColumn (slots i) c
    let vs ← writeColumns slots (i + 1) cs
    .ok (v ++ vs)

/-- The row-set of a batch whose columns hold given values where cells are absent. -/
def encodeOver (slots : Nat → Slots) (b : Batch) : Except Fault (List UInt8) := do
  let width ← writeCount .columnCount b.columns.length
  let rows ← writeCount .rowCount b.rows
  let columns ← writeColumns slots 0 b.columns
  .ok (magic ++ Bytes.ofNat 1 version ++ width ++ rows ++ columns)

/-- The row-set of a batch with placeholders where cells are absent. -/
def encode (b : Batch) : Except Fault (List UInt8) := encodeOver (fun _ _ k => k.placeholder) b

end ResultChunks.RowSet
