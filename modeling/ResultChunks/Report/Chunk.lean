import ResultChunks.Chunk.Descriptor
import ResultChunks.Report.Error
import ResultChunks.Report.Table

/-!
# Links, chunks and documents in reports
-/

namespace ResultChunks.Report

/-- A link. -/
def link (l : Link) : Json := obj
  [("chunk_index", num l.chunkIndex), ("url", str l.url), ("row_offset", num l.rowOffset),
   ("row_count", num l.rowCount), ("byte_count", num l.byteCount),
   ("expires", arr [num l.expiration.secs, num l.expiration.nanos]),
   ("headers", obj (l.headers.map fun (name, value) => (name, str value))),
   ("next", orNull num l.nextChunk)]

/-- Links, and whether more are to come. -/
def linkPage (p : Statement.LinkPage) : Json := obj
  [("links", arr (p.links.map link)), ("has_more", .bool p.hasMore),
   ("next", orNull num p.nextChunk)]

/-- The extent and the link of a chunk. -/
def chunkMeta (c : ChunkMeta) : Json := obj
  [("index", num c.index), ("row_offset", num c.rowOffset), ("row_count", num c.rowCount),
   ("byte_count", num c.byteCount), ("link", orNull link c.link)]

/-- A manifest. -/
def manifest (m : Manifest) : Json := obj
  [("chunk_count", num m.count), ("total_row_count", num m.totalRows),
   ("is_empty", .bool m.isEmpty), ("codec", str m.codec.name), ("format", str m.format.name),
   ("chunks", arr (m.chunks.map chunkMeta))]

/-- What a descriptor shows of itself. -/
def snapshot (s : Snapshot) : Json := obj
  [("index", num s.index), ("row_offset", num s.rowOffset), ("row_count", num s.rowCount),
   ("byte_count", num s.byteCount), ("status", str s.status.name), ("retry_count", num s.retries),
   ("attempts", num s.attempts), ("has_link", .bool s.hasLink), ("has_data", .bool s.hasBatches),
   ("error", orNull error s.error)]

/-- The columns that a statement describes. -/
def resultSchema (s : Statement.ResultSchema) : Json := obj
  [("column_count", num s.columnCount),
   ("columns", arr (s.columns.map fun c =>
     arr [str c.name, str c.typeName, orNull str c.typeText, num c.position]))]

/-- The chunks that a statement describes. -/
def chunkInfos (cs : List Statement.ChunkInfo) : Json :=
  arr (cs.map fun c => arr [num c.chunkIndex, num c.rowOffset, num c.rowCount, num c.byteCount])

/-- The part of a result that comes with its description. -/
def resultData (r : Statement.ResultData) : Json := obj
  [("chunk_index", orNull num r.chunkIndex), ("row_offset", orNull num r.rowOffset),
   ("row_count", orNull num r.rowCount), ("next", orNull num r.nextChunkIndex),
   ("links", orNull (fun ls => num (ls.length : Nat)) r.externalLinks),
   ("attachment", orNull bytes r.attachment)]

/-- The documents of a statement. -/
def statement (m : Statement.ResultManifest) (r : Option Statement.ResultData) : Json := obj
  [("format", orNull str m.format), ("total_chunk_count", orNull num m.totalChunkCount),
   ("total_row_count", orNull num m.totalRowCount),
   ("total_byte_count", orNull num m.totalByteCount), ("truncated", .bool m.truncated),
   ("result_compression", orNull str m.resultCompression),
   ("schema", orNull resultSchema m.schema), ("chunks", orNull chunkInfos m.chunks),
   ("result", orNull resultData r)]

end ResultChunks.Report
