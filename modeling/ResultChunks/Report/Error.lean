import ResultChunks.Error
import ResultChunks.Report.Value

/-!
# Errors in reports

The report of an error holds its kind, its wording, and what belongs to its kind; the report of a
wrapper holds that of the error inside. The wording of a decoder's or the network's own complaint is
not part of a report, so that reports can be compared wherever they were made: `withoutDetails`
replaces it by a mark, and with it every wording around it changes.
-/

namespace ResultChunks.Report

/-- What stands in place of a complaint. -/
def mark : String := "<detail>"

/-- Cut a text behind the first place where a marker occurs. -/
def cutAfter? (marker text : String) : Option (String × String) :=
  match text.splitOn marker with
  | front :: next :: rest => some (front ++ marker, marker.intercalate (next :: rest))
  | _ => none

/-- Replace what follows the first of some markers that occurs. -/
def markAfter (markers : List String) (text : String) : String :=
  match markers.findSome? fun m => cutAfter? m text with
  | some (front, _) => front ++ mark
  | none => text

/-- Where the complaint starts in the wording of a request's error: behind the next colon. -/
def requestText (text : String) : String :=
  let behindColon (marker : String) : Option String := do
    let (front, rest) ← cutAfter? marker text
    if marker.endsWith ": " then some (front ++ mark)
    else
      let (more, _) ← cutAfter? ": " rest
      some (front ++ more ++ mark)
  let markers := ["failed: ", "Invalid download link for chunk ", "Failed to read body of chunk ",
    "Failed to build request: ", "Failed to read response: "]
  match markers.find? fun m => (cutAfter? m text).isSome with
  | some m => (behindColon m).getD text
  | none => text

/-- The wording of a manifest's fault; the body of an answer stays. -/
def manifestText (text : String) : String :=
  match cutAfter? "Failed to parse chunks response: " text with
  | some (front, rest) =>
    match cutAfter? " - body: " rest with
    | some (_, body) => front ++ mark ++ " - body: " ++ body
    | none => text
  | none => markAfter ["Invalid expiration timestamp: "] text

/-- The wording of a configuration's fault; the address of a proxy stays. -/
def configText (text : String) : String :=
  match cutAfter? "Invalid proxy URL '" text with
  | some (front, rest) =>
    match cutAfter? "': " rest with
    | some (more, _) => front ++ more ++ mark
    | none => text
  | none => markAfter ["Failed to create HTTP client: "] text

/-- An error without complaints that are not this library's own. -/
def withoutDetails : FetchError → FetchError
  | .transport t => .transport (requestText t)
  | .request t => .request (requestText t)
  | .decompression f => .decompression (.reported (markAfter ["LZ4 frame: "] f.message))
  | .payload f => .payload (.reported (markAfter ["Failed to create Arrow IPC reader: ",
      "Failed to read Arrow batches: ", "row-set does not form a valid batch: "] f.message))
  | .invalidManifest f => .invalidManifest (.reported (manifestText f.message))
  | .invalidConfig f => .invalidConfig (.reported (configText f.message))
  | .linkResolution cs e => .linkResolution cs (withoutDetails e)
  | .chunkDownload c r e => .chunkDownload c r (withoutDetails e)
  | .budgetExhausted c a w e => .budgetExhausted c a w (withoutDetails e)
  | e => e

/-- The name of an error's kind. -/
def kind : FetchError → String
  | .http _ _ _ => "Http"
  | .transport _ => "Transport"
  | .request _ => "Request"
  | .linkResolution _ _ => "LinkResolution"
  | .chunkDownload _ _ _ => "ChunkDownload"
  | .decompression _ => "Decompression"
  | .payload _ => "Parse"
  | .budgetExhausted _ _ _ _ => "RetryBudgetExhausted"
  | .noSuchChunk _ _ => "InvalidIndex"
  | .closed => "ProviderClosed"
  | .invalidState _ => "InvalidState"
  | .invalidManifest _ => "InvalidManifest"
  | .invalidConfig _ => "InvalidConfig"
  | .cancelled => "Cancelled"

/-- An error as it is. -/
def plainError (e : FetchError) : Json :=
  let own : List (String × Json) := match e with
    | .http status wait _ => [("status", num status), ("retry_after", orNull duration wait)]
    | .linkResolution cs e => [("chunk_indices", arr (cs.map num)), ("source", plainError e)]
    | .chunkDownload c r e =>
      [("chunk_index", num c), ("retry_count", num r), ("source", plainError e)]
    | .budgetExhausted c a w e =>
      [("class", str c.name), ("attempts", num a), ("waited", duration w),
       ("source", plainError e)]
    | .noSuchChunk i n => [("index", num i), ("chunk_count", num n)]
    | _ => []
  obj (("error", str (kind e)) :: ("message", str e.message) :: own)

/-- An error. -/
def error (e : FetchError) : Json := plainError (withoutDetails e)

/-- A result, or the error in its place. -/
def result {α : Type} (report : α → Json) : Except FetchError α → Json
  | .ok a => report a
  | .error e => error e

/-- What a check of a configuration came to. -/
def configured {α : Type} (report : α → Json) : Except ConfigFault α → Json
  | .ok a => report a
  | .error fault => error (.invalidConfig fault)

end ResultChunks.Report
