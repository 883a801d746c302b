import ResultChunks.Json.Record
import ResultChunks.Text.Base64

/-!
# Documents of the statement interface

What the server sends for a finished statement: a manifest, which describes the chunks, and result
data, which may hold links to the first of them or the whole result inline. Later links arrive in a
document of their own.
-/

namespace ResultChunks.Statement

open Json

/-- A column as the manifest describes it. -/
structure ColumnInfo where
  name : String
  typeName : String
  typeText : Option String
  position : Int
deriving DecidableEq, Repr, Inhabited

/-- The columns of the result. -/
structure ResultSchema where
  columnCount : Int
  columns : List ColumnInfo
deriving DecidableEq, Repr, Inhabited

/-- A chunk as the manifest describes it. -/
structure ChunkInfo where
  chunkIndex : Int
  rowOffset : Int
  rowCount : Int
  byteCount : Int
deriving DecidableEq, Repr, Inhabited

/-- The description of a result. -/
structure ResultManifest where
  format : Option String
  schema : Option ResultSchema
  totalChunkCount : Option Int
  totalRowCount : Option Int
  totalByteCount : Option Int
  truncated : Bool
  chunks : Option (List ChunkInfo)
  resultCompression : Option String
deriving DecidableEq, Repr, Inhabited

/-- A link as the server writes it. -/
structure ExternalLink where
  externalLink : String
  expiration : String
  chunkIndex : Int
  rowOffset : Int
  rowCount : Int
  byteCount : Int
  headers : Option (List (String × String))
  nextChunkIndex : Option Int
deriving DecidableEq, Repr, Inhabited

/-- The part of the result that comes with its description. -/
structure ResultData where
  chunkIndex : Option Int
  rowOffset : Option Int
  rowCount : Option Int
  nextChunkIndex : Option Int
  externalLinks : Option (List ExternalLink)
  attachment : Option (List UInt8)
deriving DecidableEq, Repr, Inhabited

/-- The answer to a request for links. -/
structure ChunksResponse where
  chunkIndex : Option Int
  nextChunkIndex : Option Int
  externalLinks : Option (List ExternalLink)
deriving DecidableEq, Repr, Inhabited

/-- Read a column. -/
def ColumnInfo.ofJson? (v : Json) : Option ColumnInfo := do
  let s ← slots? ["name", "type_name", "type_text", "position"] v
  let name ← required? text? (slot s 0)
  let typeName ← required? text? (slot s 1)
  let typeText ← optional? text? (slot s 2)
  let position ← required? int32? (slot s 3)
  some { name, typeName, typeText, position }

/-- Read the columns of a result. -/
def ResultSchema.ofJson? (v : Json) : Option ResultSchema := do
  let s ← slots? ["column_count", "columns"] v
  let columnCount ← required? int32? (slot s 0)
  let columns ← required? (listOf? ColumnInfo.ofJson?) (slot s 1)
  some { columnCount, columns }

/-- Read the description of a chunk. -/
def ChunkInfo.ofJson? (v : Json) : Option ChunkInfo := do
  let s ← slots? ["chunk_index", "row_offset", "row_count", "byte_count"] v
  let chunkIndex ← required? int64? (slot s 0)
  let rowOffset ← required? int64? (slot s 1)
  let rowCount ← required? int64? (slot s 2)
  let byteCount ← defaulted? int64? 0 (slot s 3)
  some { chunkIndex, rowOffset, rowCount, byteCount }

/-- Read the description of a result. -/
def ResultManifest.ofJson? (v : Json) : Option ResultManifest := do
  let s ← slots? ["format", "schema", "total_chunk_count", "total_row_count", "total_byte_count",
    "truncated", "chunks", "result_compression"] v
  let format ← optional? text? (slot s 0)
  let schema ← optional? ResultSchema.ofJson? (slot s 1)
  let totalChunkCount ← optional? int64? (slot s 2)
  let totalRowCount ← optional? int64? (slot s 3)
  let totalByteCount ← optional? int64? (slot s 4)
  let truncated ← defaulted? bool? false (slot s 5)
  let chunks ← optional? (listOf? ChunkInfo.ofJson?) (slot s 6)
  let resultCompression ← optional? text? (slot s 7)
  some { format, schema, totalChunkCount, totalRowCount, totalByteCount, truncated, chunks,
         resultCompression }

/-- Read a link. -/
def ExternalLink.ofJson? (v : Json) : Option ExternalLink := do
  let s ← slots? ["external_link", "expiration", "chunk_index", "row_offset", "row_count",
    "byte_count", "http_headers", "next_chunk_index"] v
  let externalLink ← required? text? (slot s 0)
  let expiration ← required? text? (slot s 1)
  let chunkIndex ← required? int64? (slot s 2)
  let rowOffset ← required? int64? (slot s 3)
  let rowCount ← required? int64? (slot s 4)
  let byteCount ← defaulted? int64? 0 (slot s 5)
  let headers ← optional? textTable? (slot s 6)
  let nextChunkIndex ← optional? int64? (slot s 7)
  some { externalLink, expiration, chunkIndex, rowOffset, rowCount, byteCount, headers,
         nextChunkIndex }

/-- Read an attachment; an empty one is none. -/
def attachment? : Option Json → Option (Option (List UInt8))
  | none => some none
  | some .null => some none
  | some (.text s) => if s.isEmpty then some none else (Base64.decode? s).map some
  | some _ => none

/-- Read the data that comes with a description. -/
def ResultData.ofJson? (v : Json) : Option ResultData := do
  let s ← slots? ["chunk_index", "row_offset", "row_count", "next_chunk_index", "external_links",
    "attachment"] v
  let chunkIndex ← optional? int64? (slot s 0)
  let rowOffset ← optional? int64? (slot s 1)
  let rowCount ← optional? int64? (slot s 2)
  let nextChunkIndex ← optional? int64? (slot s 3)
  let externalLinks ← optional? (listOf? ExternalLink.ofJson?) (slot s 4)
  let attachment ← attachment? (slot s 5)
  some { chunkIndex, rowOffset, rowCount, nextChunkIndex, externalLinks, attachment }

/-- Read the answer to a request for links. -/
def ChunksResponse.ofJson? (v : Json) : Option ChunksResponse := do
  let s ← slots? ["chunk_index", "next_chunk_index", "external_links"] v
  let chunkIndex ← optional? int64? (slot s 0)
  let nextChunkIndex ← optional? int64? (slot s 1)
  let externalLinks ← optional? (listOf? ExternalLink.ofJson?) (slot s 2)
  some { chunkIndex, nextChunkIndex, externalLinks }

end ResultChunks.Statement
