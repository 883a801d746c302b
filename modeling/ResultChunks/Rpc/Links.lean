import ResultChunks.Link

/-!
# Links of the older interface

Here the server lists result files in row order. A file is known by the row it starts at, and it
expires at a count of milliseconds.
-/

namespace ResultChunks.Rpc

/-- A result file. -/
structure ResultLink where
  fileLink : String
  expiryMillis : Int
  startRowOffset : Int
  rowCount : Int
  byteCount : Int
  headers : List (String × String)
deriving DecidableEq, Repr, Inhabited

/-- The download link for a file that holds the chunk with an index. -/
def ResultLink.toLink (l : ResultLink) (index : Int) : Except ManifestFault Link :=
  match Timestamp.ofMillis? l.expiryMillis with
  | none => .error (.badExpiryMillis l.expiryMillis l.startRowOffset)
  | some expiration => .ok
    { url := l.fileLink, chunkIndex := index, rowOffset := l.startRowOffset
      rowCount := l.rowCount, byteCount := l.byteCount, expiration, headers := l.headers
      nextChunk := none }

/-- What the server says about a result. -/
structure Metadata where
  totalRowCount : Int := 0
  /-- Files in row order; the position is the chunk's index. -/
  resultLinks : List ResultLink := []
  lz4Compressed : Bool := false
  /-- Payloads are Arrow streams; else row-sets. -/
  arrowFormat : Bool := false
  /-- A small result that came with the answer. -/
  inlineRows : Option (List UInt8) := none
deriving DecidableEq, Repr, Inhabited

end ResultChunks.Rpc
