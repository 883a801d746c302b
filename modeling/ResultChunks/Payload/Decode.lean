import ResultChunks.Cursor.Inline
import ResultChunks.Error
import ResultChunks.Log.Entry
import ResultChunks.Payload.Decoders
import ResultChunks.Payload.Encoding
import ResultChunks.RowSet.Decode

/-!
# Decoding payloads

A payload is expanded as its codec says and then read in its format: a row-set is one batch, an
Arrow stream any number of batches, up to the first that cannot be read. An inline result is a payload
that came with the answer; an empty one is a result without batches.
-/

namespace ResultChunks.Payload

/-- Undo the compression of a payload. -/
def expand (d : Decoders) (codec : Codec) (bytes : List UInt8) : Except FetchError (List UInt8) :=
  match codec with
  | .none => .ok bytes
  | .lz4Frame =>
    match d.unframe bytes with
    | .ok plain => .ok plain
    | .error reason => .error (.decompression (.lz4 reason))

/-- The batches of an Arrow stream. -/
def readArrow (d : Decoders) (bytes : List UInt8) : Except PayloadFault (List Batch) :=
  match d.openStream bytes with
  | .error reason => .error (.arrowSchema reason)
  | .ok (_, items) =>
    match items.mapM id with
    | .error reason => .error (.arrowBatches reason)
    | .ok batches => .ok batches

/-- The batch of a row-set. -/
def readRowSet (bytes : List UInt8) : Except PayloadFault (List Batch) :=
  match RowSet.decode bytes with
  | .error fault => .error (.rowSet fault)
  | .ok batch => .ok [batch]

/-- Read a plain payload in a format. -/
def read (d : Decoders) (format : Format) (bytes : List UInt8) : Except PayloadFault (List Batch) :=
  match format with
  | .arrowStream => readArrow d bytes
  | .rowSet => readRowSet bytes

/-- The batches of a payload. -/
def decode (d : Decoders) (codec : Codec) (format : Format) (bytes : List UInt8) :
    Except FetchError (List Batch) := do
  let plain ← expand d codec bytes
  match read d format plain with
  | .error fault => .error (.payload fault)
  | .ok batches => .ok batches

end ResultChunks.Payload

namespace ResultChunks.InlineResult

/-- The inline result that a payload stands for. -/
def ofPayload (d : Payload.Decoders) (codec : Codec) (format : Format) (bytes : List UInt8) :
    Except FetchError InlineResult :=
  if bytes.isEmpty then .ok empty else (Payload.decode d codec format bytes).map ofBatches

/-- What the log says while an inline payload is decoded. -/
def payloadLog (d : Payload.Decoders) (codec : Codec) (format : Format) (bytes : List UInt8) :
    List Log.Entry :=
  if bytes.isEmpty then
    [⟨.debug, .inlinePayload, "Empty inline payload, creating empty provider"⟩]
  else
    ⟨.debug, .inlinePayload, s!"Decoding inline payload: {bytes.length} bytes, " ++
      s!"codec={codec.name}, format={format.name}"⟩ ::
    match Payload.decode d codec format bytes with
    | .error _ => []
    | .ok batches => [⟨.debug, .inlinePayload, s!"Decoded inline payload: {batches.length} " ++
        s!"batches, {Batch.totalRows batches} total rows"⟩]

end ResultChunks.InlineResult
