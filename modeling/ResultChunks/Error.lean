import ResultChunks.Chunk.Status
import ResultChunks.Manifest.Fault
import ResultChunks.Options.Fault
import ResultChunks.Retry.FailureClass
import ResultChunks.RowSet.Fault

/-!
# Errors

Every operation that can fail does so with one `FetchError`. A constructor is a cause; the wording
is in `message` alone. Three constructors wrap another error: a chunk whose links could not be
resolved, a chunk that could not be downloaded, and a retry budget that ran out. The cause behind
all wrappers is `rootCause`.
-/

namespace ResultChunks

/-- Why a compressed payload could not be expanded. -/
inductive DecompressionFault where
  /-- The bytes are no LZ4 frame that can be read. -/
  | lz4 (reason : String)
  /-- A fault reported in words. -/
  | reported (text : String)
deriving DecidableEq, Repr, Inhabited

/-- The wording of a fault. -/
def DecompressionFault.message : DecompressionFault → String
  | lz4 reason => s!"LZ4 frame: {reason}"
  | reported text => text

/-- Why a payload could not be read. -/
inductive PayloadFault where
  | rowSet (fault : RowSet.Fault)
  /-- The schema at the head of an Arrow stream. -/
  | arrowSchema (reason : String)
  /-- The batches of an Arrow stream. -/
  | arrowBatches (reason : String)
  /-- A fault reported in words. -/
  | reported (text : String)
deriving DecidableEq, Repr, Inhabited

/-- The wording of a fault. -/
def PayloadFault.message : PayloadFault → String
  | rowSet fault => fault.message
  | arrowSchema reason => s!"Failed to create Arrow IPC reader: {reason}"
  | arrowBatches reason => s!"Failed to read Arrow batches: {reason}"
  | reported text => text

/-- Why an operation does not fit the state of a chunk. -/
inductive StateFault where
  /-- The life of a chunk knows no such step. -/
  | noTransition (index : Int) (current next : ChunkStatus)
  /-- A link that was there is gone. -/
  | lostLink (index : Int)
  /-- A chunk failed and its error is not known. -/
  | failed (index : Int)
  /-- A chunk was handed out or freed before. -/
  | unavailable (index : Int)
  /-- A fault reported in words. -/
  | reported (text : String)
deriving DecidableEq, Repr, Inhabited

/-- The wording of a fault. -/
def StateFault.message : StateFault → String
  | noTransition index current next =>
    s!"chunk {index} cannot move from {current.name} to {next.name}"
  | lostLink index => s!"chunk {index} lost its link"
  | failed index => s!"chunk {index} failed"
  | unavailable index => s!"chunk {index} is no longer available"
  | reported text => text

/-- Why a result could not be fetched. -/
inductive FetchError where
  /-- The server answered with a status other than success. -/
  | http (status : Nat) (retryAfter : Option Duration) (body : String)
  /-- The network failed. -/
  | transport (text : String)
  /-- A request could not be made. -/
  | request (text : String)
  /-- The links of some chunks could not be had. -/
  | linkResolution (chunks : List Int) (source : FetchError)
  /-- A chunk could not be downloaded or read. -/
  | chunkDownload (chunk : Int) (retries : Nat) (source : FetchError)
  /-- A payload could not be expanded. -/
  | decompression (fault : DecompressionFault)
  /-- A payload could not be read. -/
  | payload (fault : PayloadFault)
  /-- The budget of a class of failures ran out. -/
  | budgetExhausted (cls : FailureClass) (attempts : Nat) (waited : Duration) (source : FetchError)
  /-- No chunk has this index. -/
  | noSuchChunk (index count : Int)
  /-- The provider or cursor is closed. -/
  | closed
  /-- An operation does not fit the state of a chunk. -/
  | invalidState (fault : StateFault)
  /-- The description of the result is malformed. -/
  | invalidManifest (fault : ManifestFault)
  /-- The configuration is malformed. -/
  | invalidConfig (fault : ConfigFault)
  /-- The operation was cancelled. -/
  | cancelled
deriving DecidableEq, Repr, Inhabited

namespace FetchError

/-- Whole numbers in square brackets. -/
def indexList (is : List Int) : String := "[" ++ ", ".intercalate (is.map toString) ++ "]"

/-- The wording of an error; that of a wrapper ends in the wording of what it wraps. -/
def message : FetchError → String
  | http status _ body => s!"HTTP {status} - {body}"
  | transport text => s!"transport error: {text}"
  | request text => s!"request error: {text}"
  | linkResolution chunks source =>
    s!"failed to resolve links for chunks {indexList chunks}: {source.message}"
  | chunkDownload chunk retries source =>
    s!"failed to download chunk {chunk} after {retries} retries: {source.message}"
  | decompression fault => s!"decompression failed: {fault.message}"
  | payload fault => s!"payload parse failed: {fault.message}"
  | budgetExhausted cls attempts waited source =>
    s!"retry budget exhausted for {cls.name} after {attempts} attempts ({waited.text} waited): " ++
      source.message
  | noSuchChunk index count => s!"chunk index {index} out of range [0, {count})"
  | closed => "chunk provider is closed"
  | invalidState fault => s!"invalid state: {fault.message}"
  | invalidManifest fault => s!"invalid result manifest: {fault.message}"
  | invalidConfig fault => s!"invalid configuration: {fault.message}"
  | cancelled => "operation cancelled"

/-- The status that the server answered with, behind all wrappers. -/
def httpStatus : FetchError → Option Nat
  | http status _ _ => some status
  | linkResolution _ source => source.httpStatus
  | chunkDownload _ _ source => source.httpStatus
  | budgetExhausted _ _ _ source => source.httpStatus
  | _ => none

/-- The payload itself is bad, so that downloading it again cannot help. -/
def isCorruptPayload : FetchError → Bool
  | decompression _ => true
  | payload _ => true
  | chunkDownload _ _ source => source.isCorruptPayload
  | _ => false

/-- The error behind all wrappers. -/
def rootCause : FetchError → FetchError
  | linkResolution _ source => source.rootCause
  | chunkDownload _ _ source => source.rootCause
  | budgetExhausted _ _ _ source => source.rootCause
  | error => error

/-- The wait that the server asked for. -/
def retryAfter : FetchError → Option Duration
  | http _ wait _ => wait
  | _ => none

end FetchError

end ResultChunks
