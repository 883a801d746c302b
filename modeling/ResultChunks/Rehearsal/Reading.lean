import ResultChunks.Reader
import ResultChunks.Rehearsal.World

/-!
# A cursor in a rehearsal

A reading is a cursor together with the world of its provider, if its result is chunked. Whenever
the cursor needs a chunk, the world's clock runs until the chunk is there.
-/

namespace ResultChunks.Rehearsal

/-- A cursor and the world it reads from. -/
structure Reading where
  cursor : Cursor
  world : Option World := none
  /-- The log of a cursor without a world, its last entry first. -/
  ownLog : List Log.Entry := []

namespace Reading

/-- Write to the log. -/
def note (r : Reading) (entries : List Log.Entry) : Reading :=
  match r.world with
  | some w => { r with world := some (w.note entries) }
  | none => { r with ownLog := entries.reverse ++ r.ownLog }

/-- The log so far, in order. -/
def log (r : Reading) : List Log.Entry := ((r.world.map World.log).getD r.ownLog).reverse

/-- Go on until the cursor has its answer. Each step but the last takes a chunk. -/
def follow : Nat → Reading → Cursor.Progress → Reading × Except FetchError Bool
  | 0, r, _ => (r, .ok false)
  | _ + 1, r, .done result => (r, result)
  | fuel + 1, r, .needsChunk =>
    match r.world with
    | none => (r, .ok false)
    | some w =>
      let (w, waited) := w.advance none
      let result := match waited with
        | .done result => result
        | .timeout => .error .cancelled
      let (cursor, progress) := r.cursor.receive result
      follow fuel (note { r with cursor, world := some w } (Cursor.receiveLog result)) progress

/-- Move to the next row. -/
def nextRow (r : Reading) : Reading × Except FetchError Bool :=
  let (cursor, progress) := r.cursor.next
  let chunks := (r.world.map fun w => w.setup.count).getD 0
  follow (chunks + 2) { r with cursor } progress

/-- Move on row by row: until there are no more, an error, or a number of rows. -/
def drain : Nat → Reading → Reading × List RowView × Except FetchError Bool
  | 0, r => (r, [], .ok true)
  | max + 1, r =>
    match r.nextRow with
    | (r, .ok true) =>
      let (r', rows, last) := drain max r
      (r', r.cursor.currentRow.toList ++ rows, last)
    | (r, last) => (r, [], last)

/-- May rows remain? -/
def hasNext (r : Reading) : Bool :=
  r.cursor.hasNext ((r.world.map fun w => w.state.hasNext w.setup).getD false)

/-- Close the cursor, and the provider before it. -/
def close (r : Reading) : Reading :=
  if r.cursor.closed then r
  else
    let r := { r with world := r.world.map World.close }
    { r with cursor := r.cursor.close }.note r.cursor.closeLog

/-- Let happen all that can happen around the cursor without time passing. -/
def rest (r : Reading) : Reading := { r with world := r.world.map World.rest }

/-- Let go of the cursor; a provider that is still open is closed. -/
def drop (r : Reading) : Reading := { r with world := r.world.map World.close }

/-- A reading of an opened result. -/
def ofOpened (o : Reader.Plan.Opened) (wall : Timestamp) (linkService : LinkService)
    (downloads : DownloadService) (logsEvents : Bool) : Reading :=
  { cursor := o.cursor
    world := o.provider.map fun (setup, first) =>
      World.create setup first wall linkService downloads logsEvents }

end Reading

end ResultChunks.Rehearsal
