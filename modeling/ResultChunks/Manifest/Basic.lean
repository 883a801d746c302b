import ResultChunks.Log.Entry
import ResultChunks.Payload.Encoding
import ResultChunks.Rpc.Links
import ResultChunks.Statement.Links

/-!
# The manifest of a result

A manifest lists the chunks of a result in order. It is built from any order of chunk descriptions
and checked once: the indices are 0, 1, 2, …, no size is negative, each chunk starts at the row
where the one before it ends, and the rows add up to the total. All arithmetic is exact.
-/

namespace ResultChunks

/-- The extent of a chunk, and its link if the server sent one. -/
structure ChunkMeta where
  index : Int
  rowOffset : Int
  rowCount : Int
  byteCount : Int
  link : Option Link := none
deriving DecidableEq, Repr, Inhabited

/-- A checked list of chunks. -/
structure Manifest where
  totalRows : Int
  codec : Codec
  format : Format
  chunks : List ChunkMeta
deriving DecidableEq, Repr, Inhabited

namespace Manifest

/-- The number of chunks. -/
def count (m : Manifest) : Nat := m.chunks.length

/-- There are no chunks. -/
def isEmpty (m : Manifest) : Bool := m.chunks.isEmpty

/-- Check one chunk that should have the index `position` and start at a row. -/
def checkChunk (position : Nat) (start : Int) (c : ChunkMeta) : Except ManifestFault Unit :=
  if c.index ≠ position then .error (.notContiguous position c.index)
  else if c.rowCount < 0 ∨ c.byteCount < 0 then .error (.negativeSize c.index)
  else if c.rowOffset ≠ start then .error (.offsetGap c.index c.rowOffset start)
  else .ok ()

/-- Check chunks from a position on; the result is the number of their rows. -/
def checkChunks : Nat → Int → List ChunkMeta → Except ManifestFault Int
  | _, _, [] => .ok 0
  | position, start, c :: cs => do
    checkChunk position start c
    let rows ← checkChunks (position + 1) (start + c.rowCount) cs
    .ok (c.rowCount + rows)

/-- The row at which the first chunk starts. -/
def firstRow (cs : List ChunkMeta) : Int := (cs.head?.map ChunkMeta.rowOffset).getD 0

/-- Check a list of chunks against the total. -/
def check (total : Int) (cs : List ChunkMeta) : Except ManifestFault Unit := do
  let rows ← checkChunks 0 (firstRow cs) cs
  if rows ≠ total then .error (.rowTotal rows total) else .ok ()

/-- Chunks in the order of their indices; those of one index keep their order. -/
def sortByIndex (cs : List ChunkMeta) : List ChunkMeta := cs.mergeSort fun a b => a.index ≤ b.index

/-- The manifest of chunks given in any order. -/
def ofChunks (total : Int) (codec : Codec) (format : Format) (cs : List ChunkMeta) :
    Except ManifestFault Manifest := do
  let sorted := sortByIndex cs
  check total sorted
  .ok ⟨total, codec, format, sorted⟩

/-! ## From the statement interface -/

/-- The extent of a described chunk. -/
def metaOfInfo (i : Statement.ChunkInfo) : ChunkMeta :=
  ⟨i.chunkIndex, i.rowOffset, i.rowCount, i.byteCount, none⟩

/-- The extent of a linked chunk. -/
def metaOfLink (l : Link) : ChunkMeta := ⟨l.chunkIndex, l.rowOffset, l.rowCount, l.byteCount, none⟩

/-- Attach a link to the chunk at the position of its index. -/
def attach (cs : List ChunkMeta) (l : Link) : Except ManifestFault (List ChunkMeta) :=
  if l.chunkIndex < 0 then .error (.strayLink l.chunkIndex)
  else
    match cs[l.chunkIndex.toNat]? with
    | none => .error (.strayLink l.chunkIndex)
    | some c =>
      if c.index = l.chunkIndex then
        .ok (cs.set l.chunkIndex.toNat { c with link := some l })
      else .error (.strayLink l.chunkIndex)

/-- The links of the result data, by a reader of timestamps. -/
def linksOf (dateOf : String → Option Timestamp) (result : Option Statement.ResultData) :
    Except ManifestFault (List Link) :=
  ((result.bind (·.externalLinks)).getD []).mapM (·.toLink dateOf)

/-- The chunks a statement describes. Without descriptions, the links tell their extents. -/
def describedChunks (m : Statement.ResultManifest) (links : List Link) : List ChunkMeta :=
  match m.chunks with
  | some infos => infos.map metaOfInfo
  | none => links.map metaOfLink

/-- The chunks of a statement in order, with their links. -/
def linkedChunks (dateOf : String → Option Timestamp) (m : Statement.ResultManifest)
    (result : Option Statement.ResultData) : Except ManifestFault (List ChunkMeta) := do
  let links ← linksOf dateOf result
  let cs ← links.foldlM attach (sortByIndex (describedChunks m links))
  match m.totalChunkCount with
  | some announced =>
    if announced ≠ cs.length then .error (.chunkTotal announced cs.length) else .ok cs
  | none => .ok cs

/-- The total that a statement announces, or the rows of its chunks. -/
def announcedRows (m : Statement.ResultManifest) (cs : List ChunkMeta) : Int :=
  m.totalRowCount.getD ((cs.map ChunkMeta.rowCount).foldl (· + ·) 0)

/-- The manifest of a statement's result. -/
def ofStatement (dateOf : String → Option Timestamp) (m : Statement.ResultManifest)
    (result : Option Statement.ResultData) : Except ManifestFault Manifest := do
  let cs ← linkedChunks dateOf m result
  ofChunks (announcedRows m cs) (Codec.ofName m.resultCompression) .arrowStream cs

/-- What the log says while the manifest of a statement is built. -/
def statementLog (dateOf : String → Option Timestamp) (m : Statement.ResultManifest)
    (result : Option Statement.ResultData) : List Log.Entry :=
  match linkedChunks dateOf m result with
  | .error _ => []
  | .ok cs =>
    let linked := (cs.filter fun c => c.link.isSome).length
    [⟨.debug, .manifest, s!"SEA manifest: {cs.length} chunks, {announcedRows m cs} rows, " ++
      s!"{linked} links, codec={(Codec.ofName m.resultCompression).name}"⟩]

/-! ## From the older interface -/

/-- The chunk that a listed file holds. -/
def metaOfResultLink (index : Nat) (l : Rpc.ResultLink) : Except ManifestFault ChunkMeta := do
  let link ← l.toLink index
  .ok ⟨index, l.startRowOffset, l.rowCount, l.byteCount, some link⟩

/-- The manifest of listed files; a file's position is its chunk's index. -/
def ofMetadata (m : Rpc.Metadata) : Except ManifestFault Manifest := do
  let cs ← m.resultLinks.zipIdx.mapM fun (l, i) => metaOfResultLink i l
  ofChunks m.totalRowCount (Codec.ofFlag m.lz4Compressed) (Format.ofFlag m.arrowFormat) cs

end Manifest

end ResultChunks
