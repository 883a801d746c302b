import ResultChunks.Table.ColumnType
import ResultChunks.Text.Utf8

/-!
# What can be wrong with a row-set

A part is a stretch of the layout that the input may end in; a fault is any reason for which bytes
are no row-set, or a batch cannot be written as one.
-/

namespace ResultChunks.RowSet

/-- The parts of the layout, as far as the input can end in them. -/
inductive Part where
  | header
  | nameLength
  | name
  | tag
  | bitmapLength
  | bitmap
  | values
  | textLength
  | text
  | bytesLength
  | bytes
deriving DecidableEq, Repr, Inhabited

/-- The name of a part in messages. -/
def Part.describe : Part → String
  | header => "header"
  | nameLength => "column name length"
  | name => "column name"
  | tag => "type tag"
  | bitmapLength => "null bitmap length"
  | bitmap => "null bitmap"
  | values => "column values"
  | textLength => "string length"
  | text => "string value"
  | bytesLength => "binary length"
  | bytes => "binary value"

/-- The numbers of a row-set that are written in 32 bits. -/
inductive Quantity where
  | columnCount
  | rowCount
  | name
  | bitmap
  | text
  | bytes
deriving DecidableEq, Repr, Inhabited

/-- The name of a quantity in messages. -/
def Quantity.describe : Quantity → String
  | columnCount => "column count"
  | rowCount => "row count"
  | name => "column name"
  | bitmap => "null bitmap"
  | text => "string value"
  | bytes => "binary value"

/-- Why bytes are no row-set, or a batch has no row-set. -/
inductive Fault where
  /-- The input ends inside a part. -/
  | truncated (part : Part)
  /-- The first four bytes are not the magic ones. -/
  | badMagic
  /-- The version is not the one known. -/
  | version (n : Nat)
  /-- A column's name is no text. -/
  | nameNotText (fault : Utf8.Fault)
  /-- No column type has this tag. -/
  | unknownTag (tag : Nat)
  /-- A bitmap is too short for the rows. -/
  | shortBitmap (column : String) (rows : Nat)
  /-- A value of a text column is no text. -/
  | valueNotText (column : String) (row : Nat) (fault : Utf8.Fault)
  /-- Bytes follow the last column. -/
  | trailing (count : Nat)
  /-- The columns form no batch. -/
  | noBatch
  /-- No tag stands for this column type. -/
  | unsupportedType (type : ColumnType)
  /-- A quantity does not fit into 32 bits. -/
  | tooLarge (what : Quantity)
deriving DecidableEq, Repr, Inhabited

/-- The wording of a fault. -/
def Fault.message : Fault → String
  | truncated part => s!"row-set truncated while reading {part.describe}"
  | badMagic => "row-set has a bad magic"
  | version n => s!"unsupported row-set version {n}"
  | nameNotText fault => s!"column name is not UTF-8: {fault.message}"
  | unknownTag tag => s!"unknown row-set type tag {tag}"
  | shortBitmap column rows => s!"null bitmap of column '{column}' covers fewer than {rows} rows"
  | valueNotText column row fault => s!"column '{column}' row {row} is not UTF-8: {fault.message}"
  | trailing count => s!"{count} trailing bytes after row-set"
  | noBatch => "row-set does not form a valid batch: a column breaks the rules of its field"
  | unsupportedType type => s!"type {type.name} cannot be encoded as a row-set column"
  | tooLarge what => s!"{what.describe} too large for a row-set"

end ResultChunks.RowSet
