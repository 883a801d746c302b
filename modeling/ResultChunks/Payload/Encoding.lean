/-!
# How payloads are encoded

A payload is a table in one of two formats, and its bytes may be compressed.
-/

namespace ResultChunks

/-- The compression of payloads. -/
inductive Codec where
  | none
  | lz4Frame
deriving DecidableEq, Repr, Inhabited

namespace Codec

/-- The codec that a manifest names; any unknown name means none. -/
def ofName (name : Option String) : Codec :=
  if name = some "LZ4_FRAME" then .lz4Frame else .none

/-- The codec that a flag asks for. -/
def ofFlag (compressed : Bool) : Codec := if compressed then .lz4Frame else .none

/-- The name used in messages. -/
def name : Codec → String
  | none => "None"
  | lz4Frame => "Lz4Frame"

end Codec

/-- The format of a payload. -/
inductive Format where
  | arrowStream
  | rowSet
deriving DecidableEq, Repr, Inhabited

namespace Format

/-- The format that a flag asks for. -/
def ofFlag (arrow : Bool) : Format := if arrow then .arrowStream else .rowSet

/-- The name used in messages. -/
def name : Format → String
  | arrowStream => "ArrowStream"
  | rowSet => "ColumnarRowSet"

end Format

end ResultChunks
