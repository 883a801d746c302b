import ResultChunks.Chunk.Descriptor

/-!
# The store of descriptors

The store is a list of descriptors; a chunk's index is its position. An operation names a chunk by
any whole number, and one outside the list is refused. Every change of status asks
`ChunkStatus.leadsTo` first, and a refused operation returns no store, so nothing of it can stay
behind. Only `releaseAll` cannot be refused: it changes each chunk as far as its life allows.
-/

namespace ResultChunks

/-- The descriptors of a result's chunks, in order. -/
structure Store where
  chunks : List Descriptor
deriving DecidableEq, Inhabited

namespace Store

/-- One pending descriptor per chunk of a manifest. -/
def ofManifest (m : Manifest) : Store := ⟨m.chunks.map Descriptor.ofMeta⟩

/-- The number of chunks. -/
def size (s : Store) : Nat := s.chunks.length

/-- The descriptor at an index. -/
def get (s : Store) (index : Int) : Except FetchError Descriptor :=
  if index < 0 then .error (.noSuchChunk index s.size)
  else
    match s.chunks[index.toNat]? with
    | some d => .ok d
    | none => .error (.noSuchChunk index s.size)

/-- Replace the descriptor at an index inside the list. -/
def put (s : Store) (index : Int) (d : Descriptor) : Store := ⟨s.chunks.set index.toNat d⟩

/-- Change the descriptor at an index; outside the list nothing changes. -/
def change (s : Store) (index : Int) (f : Descriptor → Descriptor) : Store :=
  match s.get index with
  | .ok d => s.put index (f d)
  | .error _ => s

/-- Move a chunk to a status, and change its descriptor with it. -/
def moveWith (s : Store) (index : Int) (next : ChunkStatus) (f : Descriptor → Descriptor) :
    Except FetchError Store := do
  let d ← s.get index
  if d.status.leadsTo next then .ok (s.put index (f { d with status := next }))
  else .error (.invalidState (.noTransition index d.status next))

/-- Move a chunk to a status. -/
def move (s : Store) (index : Int) (next : ChunkStatus) : Except FetchError Store :=
  s.moveWith index next id

/-- Attach a link to the chunk it names, if that can still use one. The answer says whether. -/
def setLink (s : Store) (link : Link) : Except FetchError (Bool × Store) := do
  let d ← s.get link.chunkIndex
  if d.status.wantsLink then .ok (true, s.put link.chunkIndex { d with link := some link })
  else .ok (false, s)

/-- Store the batches of a chunk, which is then downloaded. -/
def setBatches (s : Store) (index : Int) (batches : List Batch) : Except FetchError Store :=
  s.moveWith index .downloaded fun d => { d with batches := some batches, error := none }

/-- Record the error of a chunk, which has then failed. -/
def setFailed (s : Store) (index : Int) (error : FetchError) : Except FetchError Store :=
  s.moveWith index .failed fun d => { d with batches := none, error := some error }

/-- Free the batches of a downloaded chunk, which is then consumed. A chunk consumed before stays
as it is. The answer says whether batches were freed. -/
def release (s : Store) (index : Int) : Except FetchError (Bool × Store) := do
  let d ← s.get index
  if d.status = .consumed then .ok (false, s)
  else
    let s ← s.moveWith index .consumed fun d => { d with batches := none }
    .ok (d.batches.isSome, s)

/-- What becomes of a chunk when all are released. -/
def releaseOne (d : Descriptor) : Descriptor :=
  { d with
    status := if d.status.leadsTo .released then .released else d.status
    batches := none }

/-- Release every chunk that is not consumed, and free all batches. -/
def releaseAll (s : Store) : Store := ⟨s.chunks.map releaseOne⟩

/-- The number of chunks that hold batches. -/
def holding (s : Store) : Nat := (s.chunks.filter fun d => d.batches.isSome).length

/-- What the log says about a change of status. -/
def moveLog (index : Int) (current next : ChunkStatus) : List Log.Entry :=
  [⟨.trace, .store, s!"Chunk {index}: {current.name} -> {next.name}"⟩]

/-- What the log says when a chunk of a store is to move. -/
def moveLogOf (s : Store) (index : Int) (next : ChunkStatus) : List Log.Entry :=
  match s.get index with
  | .ok d => if d.status.leadsTo next then moveLog index d.status next else []
  | .error _ => []

end Store

end ResultChunks
