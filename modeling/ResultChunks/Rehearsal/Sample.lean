import ResultChunks.Rehearsal.World

/-!
# Sample results

Results to rehearse with: chunks of given sizes one behind the other, links that are as good as new,
and payloads whose rows are numbered through the whole result.
-/

namespace ResultChunks.Rehearsal.Sample

/-- An expiration in the far future. -/
def farExpiry : Int := 4102444800

/-- An expiration in the past. -/
def pastExpiry : Int := 1000000000

/-- How a sample chunk is linked. -/
inductive Linked where
  | no
  | fresh
  | expired
deriving DecidableEq, Repr, Inhabited

/-- The link of a sample chunk. -/
def chunkLink (index : Nat) (row rows : Int) : Linked → Option Link
  | .no => none
  | .fresh => some (expiring farExpiry)
  | .expired => some (expiring pastExpiry)
where
  /-- The link with an expiration. -/
  expiring (secs : Int) : Link :=
    { url := s!"https://storage/chunk{index}", chunkIndex := index, rowOffset := row
      rowCount := rows, byteCount := 0, expiration := .ofSecs secs, headers := []
      nextChunk := none }

/-- Chunks of given sizes from an index and a row on, eight bytes a row. -/
def chunksFrom (linked : Nat → Linked) : Nat → Int → List Int → List ChunkMeta
  | _, _, [] => []
  | i, row, n :: rest =>
    ⟨i, row, n, 8 * n, chunkLink i row n (linked i)⟩ :: chunksFrom linked (i + 1) (row + n) rest

/-- A manifest of chunks of given sizes. -/
def manifest (codec : Codec) (format : Format) (linked : Nat → Linked) (sizes : List Int) :
    Except ManifestFault Manifest :=
  Manifest.ofChunks (sizes.foldl (· + ·) 0) codec format (chunksFrom linked 0 0 sizes)

/-- A link that is as good as new. -/
def freshLink (chunk row : Int) : Link :=
  { url := s!"https://storage/fresh{chunk}", chunkIndex := chunk, rowOffset := row, rowCount := 0
    byteCount := 0, expiration := .ofSecs farExpiry, headers := [], nextChunk := none }

/-- Links by the chunks they name; of two links for one chunk the later counts. -/
def tableOf (links : List Link) : LinkTable := links.foldl (fun t l => t.insert l.chunkIndex l) []

/-- A fresh link for each request. -/
def freshLinks (requests : List LinkRequest) : LinkTable :=
  tableOf (requests.map fun r => freshLink r.chunkIndex r.rowOffset)

/-- The batch with the numbers of a chunk's rows. -/
def numbered (c : ChunkMeta) : Batch :=
  let rows := c.rowCount.toNat
  let cells := (List.range rows).map fun (i : Nat) => some (Int64.ofInt (c.rowOffset + (i : Nat)))
  ⟨[⟨"row", .int64, false, cells⟩], rows⟩

/-- The payload of the chunk that a link names. -/
def download (m : Manifest) (l : Link) : Except FetchError Provider.Download :=
  match m.chunks.find? fun c => c.index == l.chunkIndex with
  | none => .ok ⟨[], 0⟩
  | some c => .ok ⟨[numbered c], 8 * c.rowCount.toNat⟩

end ResultChunks.Rehearsal.Sample
