import ResultChunks.Log.Entry
import ResultChunks.Manifest.Basic
import ResultChunks.Resolver.Request

/-!
# Resolving links by row offset

The links that came with the manifest, and those fetched since, are kept and served while they are
fresh; only a missing or expired link costs a query. A query names a row offset, and its answer is
matched with chunks by the row each file starts at; a file that starts where no chunk does is passed
over. Requests are served in the order of their offsets.
-/

namespace ResultChunks.Rpc.Resolver

/-- What the resolver keeps: which chunk starts at which row, and the link last known for each. -/
structure Memory where
  chunkByOffset : List (Int × Int)
  links : LinkTable
  expiryBuffer : Int
deriving DecidableEq, Repr, Inhabited

/-- Remember a chunk and the link it came with. Of chunks that start at one row the last counts. -/
def Memory.addChunk (m : Memory) (c : ChunkMeta) : Memory :=
  { m with
    chunkByOffset := (c.rowOffset, c.index) :: m.chunkByOffset
    links := match c.link with
      | some l => m.links.insert c.index l
      | none => m.links }

/-- The memory at the start: the chunks of a manifest and their links. -/
def Memory.ofManifest (m : Manifest) (expiryBuffer : Int) : Memory :=
  m.chunks.foldl Memory.addChunk ⟨[], [], expiryBuffer⟩

/-- The chunk that starts at a row. -/
def Memory.chunkAt (m : Memory) (offset : Int) : Option Int := m.chunkByOffset.lookup offset

/-- The link kept for a chunk, if it is fresh. -/
def Memory.fresh (m : Memory) (now : Timestamp) (index : Int) : Option Link :=
  (m.links.find? index).filter fun l => l.isFresh now m.expiryBuffer

/-- Where a call stands: the requests still to look at, and the links so far. -/
structure Progress where
  pending : List LinkRequest
  links : LinkTable
deriving DecidableEq, Repr, Inhabited

/-- What a call does next. -/
inductive Step where
  /-- Ask the server for the files from the row of a request on. -/
  | ask (request : LinkRequest) (progress : Progress)
  /-- Answer the call. -/
  | answer (result : Except FetchError LinkTable)

/-- Where a call starts. -/
def start (requests : List LinkRequest) : Progress :=
  ⟨requests.mergeSort fun a b => a.rowOffset ≤ b.rowOffset, []⟩

/-- Serve requests from the links so far and from memory, up to the first that needs a query. -/
def serve (m : Memory) (now : Timestamp) : List LinkRequest → LinkTable → Step
  | [], links => .answer (.ok links)
  | r :: rest, links =>
    if links.has r.chunkIndex then serve m now rest links
    else
      match m.fresh now r.chunkIndex with
      | some l => serve m now rest (links.insert r.chunkIndex l)
      | none => .ask r ⟨rest, links⟩

/-- What a call does next. -/
def next (m : Memory) (now : Timestamp) (p : Progress) : Step := serve m now p.pending p.links

/-- Keep the links for listed files, up to the first file whose expiry is malformed. -/
def keep : Memory → LinkTable → List ResultLink → Memory × Except FetchError LinkTable
  | m, links, [] => (m, .ok links)
  | m, links, l :: rest =>
    match m.chunkAt l.startRowOffset with
    | none => keep m links rest
    | some index =>
      match l.toLink index with
      | .error fault => (m, .error (.invalidManifest fault))
      | .ok link =>
        keep { m with links := m.links.insert index link } (links.insert index link) rest

/-- Take the answer to a query for a request, and go on. -/
def accept (m : Memory) (now : Timestamp) (r : LinkRequest) (p : Progress) :
    Except FetchError (List ResultLink) → Memory × Step
  | .error e => (m, .answer (.error e))
  | .ok files =>
    match keep m p.links files with
    | (m, .error e) => (m, .answer (.error e))
    | (m, .ok links) =>
      if links.has r.chunkIndex then (m, next m now ⟨p.pending, links⟩)
      else (m, .answer (.error (.invalidManifest (.noLinkReturned r.chunkIndex))))

/-- What the log says about files while their links are kept. -/
def keepLog (m : Memory) : List ResultLink → List Log.Entry
  | [] => []
  | l :: rest =>
    match m.chunkAt l.startRowOffset with
    | none => ⟨.debug, .links,
        s!"Ignoring result link at unknown row offset {l.startRowOffset}"⟩ :: keepLog m rest
    | some index =>
      match l.toLink index with
      | .error _ => []
      | .ok _ => keepLog m rest

/-- What the log says about an answer. -/
def acceptLog (m : Memory) (statement : String) (r : LinkRequest) :
    Except FetchError (List ResultLink) → List Log.Entry
  | .error _ => []
  | .ok files => ⟨.debug, .links, s!"Fetched {files.length} legacy result links from row " ++
      s!"{r.rowOffset} for statement {statement}"⟩ :: keepLog m files

end ResultChunks.Rpc.Resolver
