import ResultChunks.Cursor.Cell
import ResultChunks.Cursor.Inline
import ResultChunks.Provider.Consumer

/-!
# Reading row by row

A cursor walks the rows of the batch it is in, then the batches that wait, and then asks its source
for more. The source is a chunk provider, an inline result, or nothing. A provider lives beside the
cursor: when the cursor needs a chunk, `next` says so, the provider is advanced, and `receive` takes
what that came to. Nothing changes while the cursor waits, so a wait can be given up.

The end of the rows is no error, and a row that was read stays current until the next one is.
-/

namespace ResultChunks

/-- Where a cursor's batches come from. -/
inductive Source where
  | chunks
  | inline (result : InlineResult)
  | empty
deriving DecidableEq, Inhabited

/-- A position in a result. -/
structure Cursor where
  source : Source
  schema : Option Schema
  /-- Batches that wait to be read. -/
  pending : List Batch := []
  /-- The batch being read. -/
  batch : Option Batch := none
  /-- The row in that batch. -/
  row : Nat := 0
  rowsRead : Nat := 0
  closed : Bool := false
deriving DecidableEq, Inhabited

namespace Cursor

/-- What a step of the cursor came to. -/
inductive Progress where
  /-- There is a row, or there is none, or it could not be had. -/
  | done (result : Except FetchError Bool)
  /-- The next chunk is needed. -/
  | needsChunk
deriving Inhabited

/-- Enter a batch at its first row. -/
def enter (c : Cursor) (b : Batch) (rest : List Batch) : Cursor :=
  { c with
    pending := rest, batch := some b, row := 0, rowsRead := c.rowsRead + 1
    schema := c.schema.or (some b.schema) }

/-- Batches from the first that has rows. -/
def skipEmpty (bs : List Batch) : List Batch := bs.dropWhile fun b => b.rows == 0

/-- Enter the first waiting batch that has rows; empty ones are passed over. -/
def enterPending (c : Cursor) : Option Cursor :=
  match skipEmpty c.pending with
  | [] => none
  | b :: rest => some (c.enter b rest)

/-- Leave the last batch. -/
def leave (c : Cursor) : Cursor := { c with pending := [], batch := none }

/-- Go on when no batch waits: take batches from an inline result, or ask for a chunk. -/
def pull (c : Cursor) : Cursor × Progress :=
  match c.source with
  | .chunks => ({ c with pending := [] }, .needsChunk)
  | .empty => (c.leave, .done (.ok false))
  | .inline r =>
    match skipEmpty r.batches with
    | [] => ({ c.leave with source := .inline { r with batches := [] } }, .done (.ok false))
    | b :: rest =>
      (({ c with source := .inline { r with batches := rest } }).enter b [], .done (.ok true))

/-- Go on behind the batch being read. -/
def proceed (c : Cursor) : Cursor × Progress :=
  match c.enterPending with
  | some c => (c, .done (.ok true))
  | none => c.pull

/-- Does the batch being read have a row after the current one? -/
def inBatch (c : Cursor) : Bool := c.batch.any fun b => c.row + 1 < b.rows

/-- Move to the next row. -/
def next (c : Cursor) : Cursor × Progress :=
  if c.closed then (c, .done (.error .closed))
  else if c.inBatch then
    ({ c with row := c.row + 1, rowsRead := c.rowsRead + 1 }, .done (.ok true))
  else c.proceed

/-- Take what a look for the next chunk came to, and go on. -/
def receive (c : Cursor) : Except FetchError (Option Provider.Handle) → Cursor × Progress
  | .error e => (c, .done (.error e))
  | .ok none => (c.leave, .done (.ok false))
  | .ok (some chunk) => ({ c with pending := c.pending ++ chunk.batches }).proceed

/-- What the log says about a chunk that was received. -/
def receiveLog : Except FetchError (Option Provider.Handle) → List Log.Entry
  | .ok (some chunk) =>
    [⟨.trace, .cursor, s!"Cursor moved to chunk {chunk.index} ({chunk.rowCount} rows)"⟩]
  | _ => []

/-- The row moved to last. -/
def currentRow (c : Cursor) : Option RowView := c.batch.map fun b => ⟨b, c.row⟩

/-- May rows remain? `chunks` says whether the provider may have another chunk. -/
def hasNext (c : Cursor) (chunks : Bool) : Bool :=
  if c.closed then false
  else if c.inBatch || c.pending.any (fun b => b.rows > 0) then true
  else
    match c.source with
    | .chunks => chunks
    | .inline r => r.hasMore
    | .empty => false

/-- Let go of all batches. The provider of a chunked result is closed with the cursor. -/
def close (c : Cursor) : Cursor :=
  if c.closed then c else { c with closed := true, pending := [], batch := none }

/-- What the log says when a cursor is closed, after what its provider says. -/
def closeLog (c : Cursor) : List Log.Entry :=
  if c.closed then []
  else [⟨.debug, .cursor, s!"Row cursor closed after {c.rowsRead} rows"⟩]

end Cursor

end ResultChunks
