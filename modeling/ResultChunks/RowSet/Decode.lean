import ResultChunks.RowSet.Layout

/-!
# Reading a row-set

A reader takes the bytes in front of it and returns what it read with the rest, or the fault. No
count in the input is trusted: a reader that runs out of bytes says in which part, and the bitmap
has to cover the rows before a value is read.
-/

namespace ResultChunks.RowSet

/-- Reads something off the front of some bytes. -/
abbrev Reader (α : Type) := List UInt8 → Except Fault (α × List UInt8)

/-- Read a given count of bytes of a part. -/
def take (n : Nat) (part : Part) : Reader (List UInt8) := fun s =>
  match Bytes.split? n s with
  | some r => .ok r
  | none => .error (.truncated part)

/-- Read a number in a given count of bytes of a part. -/
def number (width : Nat) (part : Part) : Reader Nat := fun s => do
  let (bs, s) ← take width part s
  .ok (Bytes.toNat bs, s)

/-- Read a count or length. -/
def count (part : Part) : Reader Nat := number 4 part

/-- Read a length and that many bytes. -/
def block (lengthPart part : Part) : Reader (List UInt8) := fun s => do
  let (n, s) ← count lengthPart s
  take n part s

/-- Read a text that is to be blamed as `fault` says when it is none. -/
def textBlock (lengthPart part : Part) (fault : Utf8.Fault → Fault) : Reader String := fun s => do
  let (bs, s) ← block lengthPart part s
  match Utf8.decode bs with
  | .ok t => .ok (t, s)
  | .error f => .error (fault f)

/-- Read one value of a kind. `blame` is the fault of a text value that is none. -/
def value (blame : Utf8.Fault → Fault) : (k : Kind) → Reader k.type.Cell
  | .bool => fun s => do
    let (n, s) ← number 1 .values s
    .ok (n != 0, s)
  | .int8 => fun s => do
    let (n, s) ← number 1 .values s
    .ok ((UInt8.ofNat n).toInt8, s)
  | .int16 => fun s => do
    let (n, s) ← number 2 .values s
    .ok ((UInt16.ofNat n).toInt16, s)
  | .int32 => fun s => do
    let (n, s) ← number 4 .values s
    .ok ((UInt32.ofNat n).toInt32, s)
  | .int64 => fun s => do
    let (n, s) ← number 8 .values s
    .ok ((UInt64.ofNat n).toInt64, s)
  | .float64 => fun s => do
    let (n, s) ← number 8 .values s
    .ok (UInt64.ofNat n, s)
  | .utf8 => textBlock .textLength .text blame
  | .binary => block .bytesLength .bytes

/-- Read a cell per row, from a row on; `absent` says for each row whether its cell is absent. -/
def cells (column : String) (k : Kind) : Nat → List Bool → Reader (List (Option k.type.Cell))
  | _, [] => fun s => .ok ([], s)
  | row, absent :: rest => fun s => do
    let (v, s) ← value (.valueNotText column row) k s
    let (vs, s) ← cells column k (row + 1) rest s
    .ok ((if absent then none else some v) :: vs, s)

/-- Read a column of a number of rows. -/
def column (rows : Nat) : Reader Column := fun s => do
  let (name, s) ← textBlock .nameLength .name .nameNotText s
  let (tag, s) ← number 1 .tag s
  match Kind.ofTag? tag with
  | none => .error (.unknownTag tag)
  | some k => do
    let (bitmap, s) ← block .bitmapLength .bitmap s
    if bitmap.length < Bytes.sizeOfBits rows then .error (.shortBitmap name rows)
    else do
      let (cs, s) ← cells name k 0 ((Bytes.unpack bitmap).take rows) s
      .ok (⟨name, k.type, true, cs⟩, s)

/-- Read a number of columns. -/
def columns (rows : Nat) : Nat → Reader (List Column)
  | 0 => fun s => .ok ([], s)
  | n + 1 => fun s => do
    let (c, s) ← column rows s
    let (cs, s) ← columns rows n s
    .ok (c :: cs, s)

/-- The column and row counts of a header. -/
def header : Reader (Nat × Nat) := fun s => do
  let (h, s) ← take headerSize .header s
  if h.take 4 ≠ magic then .error .badMagic
  else
    let v := Bytes.toNat ((h.drop 4).take 1)
    if v ≠ version then .error (.version v)
    else .ok ((Bytes.toNat ((h.drop 5).take 4), Bytes.toNat (h.drop 9)), s)

/-- Read a whole input as one row-set. -/
def decode (bytes : List UInt8) : Except Fault Batch := do
  let ((width, rows), s) ← header bytes
  let (cs, s) ← columns rows width s
  if s ≠ [] then .error (.trailing s.length)
  else
    match Batch.ofColumns? cs rows with
    | some b => .ok b
    | none => .error .noBatch

end ResultChunks.RowSet
