import ResultChunks.Arrow.Message

/-!
# Columns in the body of a message

A column is a bitmap of the cells that are there, and its values: packed truth values, values of a
fixed width, or the bounds of stretches in a last buffer. The bounds never fall and never leave that
buffer. A bitmap counts only when the node says that cells are absent.
-/

namespace ResultChunks.Arrow

/-- A buffer of a body. A compressed one starts with the size of its plain form; only buffers that
are stored in plain form after all, or that are empty, can be read. -/
def buffer (body : Run) (compressed : Bool) (e : Extent) : Except Fault (List UInt8) :=
  if e.offset < 0 ∨ e.length < 0 ∨ (body.size : Int) < e.offset + e.length then .error .badBuffer
  else
    let bytes := (body.extract e.offset.toNat (e.offset + e.length).toNat).toList
    if !compressed || bytes.isEmpty then .ok bytes
    else
      match Bytes.split? 8 bytes with
      | none => .error .badBuffer
      | some (size, rest) =>
        let size := Bytes.toNat size
        if size = 0 then .ok []
        else if size = Nat.pow 2 64 - 1 then .ok rest
        else .error (.unsupported "a compressed buffer")

/-- For each row, whether its cell is there. -/
def presence (rows : Nat) (node : Node) (bitmap : List UInt8) : Option (List Bool) :=
  if node.nullCount ≤ 0 then some (List.replicate rows true)
  else if bitmap.length < Bytes.sizeOfBits rows then none
  else some ((Bytes.unpack bitmap).take rows)

/-- A number of values of a fixed width. -/
def fixed (width : Nat) : Nat → List UInt8 → Option (List Nat)
  | 0, _ => some []
  | n + 1, bytes => do
    let (value, rest) ← Bytes.split? width bytes
    let values ← fixed width n rest
    some (Bytes.toNat value :: values)

/-- A number of packed truth values. -/
def flags (rows : Nat) (bytes : List UInt8) : Option (List Bool) :=
  if bytes.length < Bytes.sizeOfBits rows then none else some ((Bytes.unpack bytes).take rows)

/-- The stretches between bounds that never fall. -/
def stretches (data : Run) : List Nat → Option (List (List UInt8))
  | lo :: hi :: bounds =>
    if hi < lo || data.size < hi then none
    else (stretches data (hi :: bounds)).map ((data.extract lo hi).toList :: ·)
  | [lo] => if data.size < lo then none else some []
  | [] => some []

/-- Bounds as numbers of a width; no rows may come without any bounds. -/
def bounds (width rows : Nat) (bytes : List UInt8) : Option (List Nat) :=
  if rows = 0 && bytes.isEmpty then some [] else fixed width (rows + 1) bytes

/-- The texts of stretches. In a buffer that is a text as a whole, no bound may cut a character. -/
def texts (data : List UInt8) (bounds : List Nat) : Option (List String) := do
  let pieces ← stretches data.toArray bounds
  let whole := (Utf8.decode data).toOption.isSome
  let cut (p : Nat) : Bool := (data[p]?).any Utf8.isContinuation
  if whole && 2 ≤ bounds.length && bounds.any cut then none
  else pieces.mapM fun piece => (Utf8.decode piece).toOption

/-- Cells from values and their presence. -/
def cellsOf {α : Type} (present : List Bool) (values : List α) : List (Option α) :=
  List.zipWith (fun there v => if there then some v else none) present values

/-- The number of buffers that a column of a type has. -/
def bufferCount : ColumnType → Nat
  | .utf8 | .largeUtf8 | .binary | .largeBinary => 3
  | _ => 2

/-- The values of a column, from the buffers behind its bitmap. -/
def values (rows : Nat) (a b : List UInt8) : (t : ColumnType) → Option (List t.Cell)
  | .boolean => flags rows a
  | .int8 => (fixed 1 rows a).map fun vs => vs.map fun n => (UInt8.ofNat n).toInt8
  | .int16 => (fixed 2 rows a).map fun vs => vs.map fun n => (UInt16.ofNat n).toInt16
  | .int32 => (fixed 4 rows a).map fun vs => vs.map fun n => (UInt32.ofNat n).toInt32
  | .int64 => (fixed 8 rows a).map fun vs => vs.map fun n => (UInt64.ofNat n).toInt64
  | .uint8 => (fixed 1 rows a).map fun vs => vs.map UInt8.ofNat
  | .float32 => (fixed 4 rows a).map fun vs => vs.map UInt32.ofNat
  | .float64 => (fixed 8 rows a).map fun vs => vs.map UInt64.ofNat
  | .date32 => (fixed 4 rows a).map fun vs => vs.map fun n => (UInt32.ofNat n).toInt32
  | .timestamp => (fixed 8 rows a).map fun vs => vs.map fun n => (UInt64.ofNat n).toInt64
  | .utf8 => (bounds 4 rows a).bind (texts b)
  | .largeUtf8 => (bounds 8 rows a).bind (texts b)
  | .binary => (bounds 4 rows a).bind (stretches b.toArray)
  | .largeBinary => (bounds 8 rows a).bind (stretches b.toArray)
  | .other _ => none

/-- A column, from its field, its node and its buffers. -/
def column (f : Field) (node : Node) (buffers : List (List UInt8)) : Except Fault Column :=
  if node.length < 0 then .error (.badColumn f.name)
  else
    let rows := node.length.toNat
    let cells := do
      let vs ← values rows ((buffers[1]?).getD []) ((buffers[2]?).getD []) f.type
      let present ← presence rows node ((buffers[0]?).getD [])
      some (cellsOf present vs)
    match cells with
    | some cs => .ok ⟨f.name, f.type, f.nullable, cs⟩
    | none => .error (.badColumn f.name)

/-- The columns of a batch, one field, node and group of buffers after the other. -/
def columns (body : Run) (compressed : Bool) :
    Schema → List Node → List Extent → Except Fault (List Column)
  | [], _, _ => .ok []
  | _ :: _, [], _ => .error .badMessage
  | f :: fs, node :: nodes, extents =>
    let n := bufferCount f.type
    if extents.length < n then .error .badMessage
    else do
      let buffers ← (extents.take n).mapM (buffer body compressed)
      let c ← column f node buffers
      let cs ← columns body compressed fs nodes (extents.drop n)
      .ok (c :: cs)

/-- The batch that a description and a body stand for. -/
def batch (schema : Schema) (head : BatchHead) (body : Run) : Except Fault Batch := do
  let cs ← columns body head.compressed schema head.nodes head.buffers
  if head.rows < 0 then .error .noBatch
  else
    match Batch.ofColumns? cs head.rows.toNat with
    | some b => .ok b
    | none => .error .noBatch

end ResultChunks.Arrow
