import ResultChunks.Manifest.Basic
import ResultChunks.Table.Batch

/-!
# Chunk descriptors

A descriptor holds what is known of one chunk: its extent, its link, where it stands, its batches
once they are downloaded and its error once it failed. A snapshot is a descriptor without the
batches and the link.
-/

namespace ResultChunks

/-- What is known of one chunk. -/
structure Descriptor where
  index : Int
  rowOffset : Int
  rowCount : Int
  byteCount : Int
  link : Option Link := none
  status : ChunkStatus := .pending
  /-- Retries of the operation that ran last for this chunk. -/
  retries : Nat := 0
  /-- Attempts of the operation that ran last for this chunk. -/
  attempts : Nat := 0
  batches : Option (List Batch) := none
  error : Option FetchError := none
deriving DecidableEq, Inhabited

namespace Descriptor

/-- The descriptor a chunk starts with. -/
def ofMeta (c : ChunkMeta) : Descriptor :=
  { index := c.index, rowOffset := c.rowOffset, rowCount := c.rowCount, byteCount := c.byteCount
    link := c.link }

/-- The link, if it can be used now. -/
def freshLink (d : Descriptor) (now : Timestamp) (buffer : Int) : Option Link :=
  d.link.filter fun l => l.isFresh now buffer

/-- The check that decides is the one that the clock answers. -/
theorem freshLink_eq {now : Timestamp} {buffer : Int} (h : (now.addSecs buffer).hasDate = true)
    (d : Descriptor) :
    d.freshLink now buffer = d.link.filter fun l => l.isExpired? now buffer = some false := by
  unfold freshLink
  congr 1
  funext l
  rw [Link.isExpired?_eq h, Link.isFresh]
  cases l.isExpired now buffer <;> rfl

/-- Note the attempts of the operation that ran last. -/
def countAttempts (d : Descriptor) (attempts : Nat) : Descriptor :=
  { d with attempts := attempts, retries := attempts - 1 }

end Descriptor

/-- A descriptor without its batches and its link. -/
structure Snapshot where
  index : Int
  rowOffset : Int
  rowCount : Int
  byteCount : Int
  status : ChunkStatus
  retries : Nat
  attempts : Nat
  hasLink : Bool
  hasBatches : Bool
  error : Option FetchError
deriving DecidableEq, Inhabited

/-- What a descriptor shows of itself. -/
def Descriptor.snapshot (d : Descriptor) : Snapshot :=
  { index := d.index, rowOffset := d.rowOffset, rowCount := d.rowCount, byteCount := d.byteCount
    status := d.status, retries := d.retries, attempts := d.attempts
    hasLink := d.link.isSome, hasBatches := d.batches.isSome, error := d.error }

end ResultChunks
