import ResultChunks.Rehearsal.World
import ResultChunks.Report.Chunk

/-!
# Rehearsals in reports

A trace is reported under its keys: for each, what happened in order, with the milliseconds in
front.
-/

namespace ResultChunks.Report

open Rehearsal

/-- What happened. -/
def happening : Happening → List Json
  | .resolve row => [str "resolve", num row]
  | .pageQuery s => [str "get_result_chunks", str s]
  | .fileQuery s => [str "fetch_result_links", str s]
  | .download url => [str "download", str url]
  | .reported (.linksResolved cs links attempts _) =>
    [str "links_resolved", arr (cs.map num), num links, num attempts]
  | .reported (.downloaded _ bytes rows attempts _) =>
    [str "completed", num bytes, num rows, num attempts]
  | .reported (.failed _ retries _ _) => [str "failed", num retries]
  | .reported (.retry _ cls attempt delay) =>
    [str "retry", str cls.name, num attempt, duration delay]

/-- A trace. -/
def trace (t : Trace) : Json :=
  let mentions := t.reverse
  let keys := (mentions.map fun e => e.2.key).eraseDups
  let under (key : String) : List Json := (mentions.filter fun e => e.2.key == key).map
    fun (time, m) => arr (num time :: happening m.happening)
  obj (keys.map fun key => (key, arr (under key)))

/-- Is it an event that a task reported? -/
def isReported : Happening → Bool
  | .reported _ => true
  | _ => false

/-- A trace without the events that tasks reported. -/
def quietTrace (t : Trace) : Json := trace (t.filter fun e => !isReported e.2.happening)

/-- The state of a provider. -/
def provider (w : World) : Json := obj
  [("has_next", .bool (w.state.hasNext w.setup)), ("in_memory", num w.state.held),
   ("peak", num w.state.peak), ("next_to_download", num w.state.next),
   ("closed", .bool w.state.closed),
   ("statuses", arr (w.state.store.chunks.map fun d => str d.status.name))]

/-- What an advance came to. -/
def advanced : Advanced → Json
  | .ok (some h) => obj [("index", num h.index), ("row_offset", num h.rowOffset),
      ("row_count", num h.rowCount), ("batches", batches h.batches)]
  | .ok none => str "end"
  | .error e => error e

/-- Links by chunk, in the order of the chunks. -/
def linkTable (t : LinkTable) : Json :=
  arr ((t.mergeSort fun a b => a.1 ≤ b.1).map fun (index, l) => arr [num index, link l])

/-- A downloaded payload. -/
def download (d : Provider.Download) : Json := obj
  [("batches", batches d.batches), ("byte_count", num d.byteCount), ("row_count", num d.rowCount)]

end ResultChunks.Report
