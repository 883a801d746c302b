import ResultChunks.Arrow.FlatTable
import ResultChunks.Table.Batch

/-!
# Messages of an Arrow stream

A message is metadata and a body. The metadata of the first message describes the fields; that of
each later one lists, for a batch, the length of every column and the place of every buffer inside
the body.
-/

namespace ResultChunks.Arrow

/-- The length of a column, and how many of its cells are absent. -/
structure Node where
  length : Int
  nullCount : Int
deriving DecidableEq, Repr, Inhabited

/-- The place of a buffer in the body. -/
structure Extent where
  offset : Int
  length : Int
deriving DecidableEq, Repr, Inhabited

/-- The description of a batch. -/
structure BatchHead where
  rows : Int
  nodes : List Node
  buffers : List Extent
  /-- Buffers start with the size of their plain form. -/
  compressed : Bool
deriving DecidableEq, Repr, Inhabited

/-- What a message is about. -/
inductive Head where
  | nothing
  | fields (schema : Schema)
  | batch (head : BatchHead)
  | other
deriving DecidableEq, Repr, Inhabited

/-- A message without its body. -/
structure Message where
  head : Head
  bodySize : Int
deriving DecidableEq, Repr, Inhabited

namespace Message

/-- A type, from its number and the table of its details. -/
def columnType (kind : Nat) (t : FlatTable) : Except Fault ColumnType := do
  match kind with
  | 2 =>
    let width ← t.int 0 4 0
    let signed ← t.nat 1 1
    match width, signed with
    | 8, 0 => .ok .uint8
    | 8, _ => .ok .int8
    | 16, 1 => .ok .int16
    | 32, 1 => .ok .int32
    | 64, 1 => .ok .int64
    | _, _ => .error (.unsupported "a whole number type")
  | 3 =>
    match ← t.int 0 2 0 with
    | 1 => .ok .float32
    | 2 => .ok .float64
    | _ => .error (.unsupported "a floating point type")
  | 4 => .ok .binary
  | 5 => .ok .utf8
  | 6 => .ok .boolean
  | 8 => if (← t.int 0 2 1) = 0 then .ok .date32 else .error (.unsupported "a date type")
  | 10 =>
    let unit ← t.int 0 2 0
    let zone ← t.text 1
    if unit = 2 ∧ zone = none then .ok .timestamp else .error (.unsupported "a timestamp type")
  | 19 => .ok .largeBinary
  | 20 => .ok .largeUtf8
  | _ => .error (.unsupported "a column type")

/-- A field. -/
def fieldOf (t : FlatTable) : Except Fault Field := do
  let name ← t.text 0
  let nullable ← t.nat 1 1
  let kind ← t.nat 2 1
  match ← t.table 3 with
  | none => .error .badMessage
  | some details =>
    let type ← columnType kind details
    if (t.field? 4).isSome then .error (.unsupported "a dictionary")
    else .ok ⟨name.getD "", type, nullable ≠ 0⟩

/-- The fields that a schema lists. -/
def schemaOf (t : FlatTable) : Except Fault Schema := do
  let fields ← t.items 1 4 fun p => do
    let p ← t.run.follow p
    let field ← FlatTable.read t.run p
    fieldOf field
  .ok (fields.getD [])

/-- A column's node. -/
def nodeAt (run : Run) (p : Nat) : Except Fault Node := do
  .ok ⟨← run.intAt 8 p, ← run.intAt 8 (p + 8)⟩

/-- A buffer's place. -/
def extentAt (run : Run) (p : Nat) : Except Fault Extent := do
  .ok ⟨← run.intAt 8 p, ← run.intAt 8 (p + 8)⟩

/-- The description of a batch. -/
def batchOf (t : FlatTable) : Except Fault BatchHead := do
  let rows ← t.int 0 8 0
  let nodes ← t.items 1 16 (nodeAt t.run)
  let buffers ← t.items 2 16 (extentAt t.run)
  let compression ← t.table 3
  match nodes, buffers with
  | some nodes, some buffers => .ok { rows, nodes, buffers, compressed := compression.isSome }
  | _, _ => .error .badMessage

/-- The metadata of a message. -/
def ofMetadata (run : Run) : Except Fault Message := do
  let t ← FlatTable.root run
  let kind ← t.nat 1 1
  let bodySize ← t.int 3 8 0
  match kind, ← t.table 2 with
  | 0, _ => .ok ⟨.nothing, bodySize⟩
  | 1, some inner => .ok ⟨.fields (← schemaOf inner), bodySize⟩
  | 3, some inner => .ok ⟨.batch (← batchOf inner), bodySize⟩
  | 1, none | 3, none => .error .badMessage
  | _, _ => .ok ⟨.other, bodySize⟩

end Message

end ResultChunks.Arrow
