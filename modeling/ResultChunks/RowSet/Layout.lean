import ResultChunks.Bytes.LittleEndian
import ResultChunks.RowSet.Fault
import ResultChunks.Table.Batch

/-!
# The layout of a row-set

```text
  "DBRS" | version, one byte | column count | row count
  per column:
    name length | name
    type tag, one byte
    bitmap length | null bitmap, lowest bit first, a set bit means absent
    a value per row: of fixed width, or a length and that many bytes
```

Counts and lengths take four bytes, lowest first. Absent cells still have a value, so that a column
is read without a look at its bitmap. This module holds what reading and writing share: the eight
kinds of columns with their tags, and the written form of a single value.
-/

namespace ResultChunks.RowSet

/-- The four bytes a row-set starts with. -/
def magic : List UInt8 := [0x44, 0x42, 0x52, 0x53]

/-- The version of the layout. -/
def version : Nat := 1

/-- The bytes before the first column. -/
def headerSize : Nat := 13

/-- The kinds of columns that have a tag. -/
inductive Kind where
  | bool
  | int8
  | int16
  | int32
  | int64
  | float64
  | utf8
  | binary
deriving DecidableEq, Repr, Inhabited

namespace Kind

/-- The column type of a kind. -/
def type : Kind → ColumnType
  | bool => .boolean
  | int8 => .int8
  | int16 => .int16
  | int32 => .int32
  | int64 => .int64
  | float64 => .float64
  | utf8 => .utf8
  | binary => .binary

/-- The tag of a kind. -/
def tag : Kind → Nat
  | bool => 0
  | int8 => 1
  | int16 => 2
  | int32 => 3
  | int64 => 4
  | float64 => 5
  | utf8 => 6
  | binary => 7

/-- The kind with a tag. -/
def ofTag? : Nat → Option Kind
  | 0 => some bool
  | 1 => some int8
  | 2 => some int16
  | 3 => some int32
  | 4 => some int64
  | 5 => some float64
  | 6 => some utf8
  | 7 => some binary
  | _ => none

/-- A kind of a column type, together with the proof that it is of that type. -/
def ofType? : (t : ColumnType) → Option { k : Kind // k.type = t }
  | .boolean => some ⟨bool, rfl⟩
  | .int8 => some ⟨int8, rfl⟩
  | .int16 => some ⟨int16, rfl⟩
  | .int32 => some ⟨int32, rfl⟩
  | .int64 => some ⟨int64, rfl⟩
  | .float64 => some ⟨float64, rfl⟩
  | .utf8 => some ⟨utf8, rfl⟩
  | .binary => some ⟨binary, rfl⟩
  | _ => none

/-- What stands in place of an absent cell. -/
def placeholder : (k : Kind) → k.type.Cell
  | bool => false
  | int8 => (0 : Int8)
  | int16 => (0 : Int16)
  | int32 => (0 : Int32)
  | int64 => (0 : Int64)
  | float64 => (0 : UInt64)
  | utf8 => ""
  | binary => []

theorem ofTag?_tag (k : Kind) : ofTag? k.tag = some k := by cases k <;> rfl

theorem tag_of_ofTag? {n : Nat} {k : Kind} (h : ofTag? n = some k) : k.tag = n := by
  unfold ofTag? at h
  split at h <;> simp_all <;> (subst h; rfl)

theorem ofType?_type (k : Kind) : ofType? k.type = some ⟨k, rfl⟩ := by cases k <;> rfl

end Kind

end ResultChunks.RowSet
