import ResultChunks.Telemetry

/-!
# Traces

A trace lists what happened in a rehearsal, each event with its time and the key it belongs to: the
index of a chunk, or a row offset.
-/

namespace ResultChunks.Rehearsal

/-- What happened. -/
inductive Happening where
  /-- A resolver was asked for links, from a row on. -/
  | resolve (rowOffset : Int)
  /-- The statement interface was asked for links. -/
  | pageQuery (statement : String)
  /-- The older interface was asked for result files. -/
  | fileQuery (statement : String)
  /-- A payload was asked for. -/
  | download (url : String)
  /-- A task reported an event. -/
  | reported (event : ChunkEvent)
deriving DecidableEq, Repr, Inhabited

/-- Something that happened, under its key. -/
structure Mention where
  key : String
  happening : Happening
deriving DecidableEq, Repr, Inhabited

/-- The key of a chunk. -/
def chunkKey (index : Int) : String := toString index

/-- The key of a row. -/
def rowKey (offset : Int) : String := s!"offset {offset}"

/-- The chunk that an event is about. -/
def eventKey : ChunkEvent → String
  | .linksResolved chunks _ _ _ => chunkKey (chunks.head?.getD 0)
  | .downloaded chunk _ _ _ _ => chunkKey chunk
  | .failed chunk _ _ _ => chunkKey chunk
  | .retry chunk _ _ _ => chunkKey chunk

/-- Mentions with their times in milliseconds, the last one first. -/
abbrev Trace := List (Nat × Mention)

end ResultChunks.Rehearsal
