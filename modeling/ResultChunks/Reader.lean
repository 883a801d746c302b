import ResultChunks.Cursor.Basic
import ResultChunks.Payload.Decode
import ResultChunks.Text.Capital

/-!
# How a result is read

A result that came inline is decoded at once, a result without chunks is empty, and any other is
read through a chunk provider. `Plan` is that choice, with the schema that the server declared;
columns may be absent in every row as far as it says. `Plan.start` makes the cursor, and with it the
provider of a chunked result.
-/

namespace ResultChunks.Reader

/-- The column type that the server's name for a type stands for. -/
def typeOf? (name : String) : Option ColumnType :=
  match Text.capitals name with
  | "BOOLEAN" => some .boolean
  | "BYTE" | "TINYINT" => some .int8
  | "SHORT" | "SMALLINT" => some .int16
  | "INT" | "INTEGER" => some .int32
  | "LONG" | "BIGINT" => some .int64
  | "FLOAT" | "REAL" => some .float32
  | "DOUBLE" => some .float64
  | "STRING" => some .utf8
  | "BINARY" => some .binary
  | "DATE" => some .date32
  | "TIMESTAMP" | "TIMESTAMP_NTZ" => some .timestamp
  | _ => none

/-- The column type for a name; an unknown one counts as text. -/
def typeOf (name : String) : ColumnType := (typeOf? name).getD .utf8

/-- The schema that a statement declares. -/
def declaredSchema (m : Statement.ResultManifest) : Option Schema :=
  m.schema.map fun s => s.columns.map fun c => ⟨c.name, typeOf c.typeName, true⟩

/-- What the log says about types that are not known. -/
def schemaLog (m : Statement.ResultManifest) : List Log.Entry :=
  ((m.schema.map (·.columns)).getD []).filterMap fun c =>
    if (typeOf? c.typeName).isSome then none
    else some ⟨.debug, .reader, s!"Unknown Databricks type '{c.typeName}', mapping to Utf8"⟩

/-- How a result is read. -/
inductive Plan where
  /-- A payload that came with the answer. -/
  | inline (codec : Codec) (format : Format) (payload : List UInt8) (schema : Option Schema)
  /-- Nothing. -/
  | empty (schema : Option Schema)
  /-- Chunks that are downloaded. -/
  | chunks (manifest : Manifest) (schema : Option Schema)
deriving DecidableEq, Inhabited

namespace Plan

/-- Bytes that are there. -/
def present (bytes : Option (List UInt8)) : Option (List UInt8) := bytes.filter fun b => !b.isEmpty

/-- Read chunks, if there are any. -/
def ofManifest (m : Manifest) (schema : Option Schema) : Plan :=
  if m.isEmpty then .empty schema else .chunks m schema

/-- How the result of a statement is read. -/
def ofStatement (m : Statement.ResultManifest) (result : Option Statement.ResultData) :
    Except ManifestFault Plan :=
  let schema := declaredSchema m
  match present (result.bind (·.attachment)) with
  | some bytes => .ok (.inline (Codec.ofName m.resultCompression) .arrowStream bytes schema)
  | none =>
    (Manifest.ofStatement Rfc3339.parse? m result).map fun manifest => ofManifest manifest schema

/-- How a result of the older interface is read. -/
def ofMetadata (m : Rpc.Metadata) : Except ManifestFault Plan :=
  match present m.inlineRows with
  | some bytes =>
    .ok (.inline (Codec.ofFlag m.lz4Compressed) (Format.ofFlag m.arrowFormat) bytes none)
  | none => (Manifest.ofMetadata m).map fun manifest => ofManifest manifest none

/-- A number that may be missing, in words. -/
def describe (n : Option Int) : String := n.elim "None" fun n => s!"Some({n})"

/-- A line about how a result is read. -/
def line (text : String) : Log.Entry := ⟨.info, .reader, text⟩

/-- What the log says while the result of a statement is looked at. -/
def statementLog (statement : String) (m : Statement.ResultManifest)
    (result : Option Statement.ResultData) : List Log.Entry :=
  let head : Log.Entry := ⟨.debug, .reader,
    s!"Result manifest: total_chunks={describe m.totalChunkCount}, " ++
      s!"total_rows={describe m.totalRowCount}, total_bytes={describe m.totalByteCount}, " ++
      s!"truncated={m.truncated}"⟩
  let tail := match present (result.bind (·.attachment)) with
    | some bytes => [line s!"Using inline reader: {bytes.length} bytes of Arrow IPC data"]
    | none =>
      Manifest.statementLog Rfc3339.parse? m result ++
        match Manifest.ofStatement Rfc3339.parse? m result with
        | .error _ => []
        | .ok c =>
          if c.isEmpty then [line s!"Using empty reader: no chunks for statement {statement}"]
          else [line s!"Using CloudFetch reader: {c.count} chunks for statement {statement}"]
  head :: schemaLog m ++ tail

/-- What the log says while a result of the older interface is looked at. -/
def metadataLog (statement : String) (m : Rpc.Metadata) : List Log.Entry :=
  match present m.inlineRows with
  | some bytes => [line s!"Using inline reader: {bytes.length} bytes of inline rows"]
  | none =>
    match Manifest.ofMetadata m with
    | .error _ => []
    | .ok c =>
      if c.isEmpty then [line s!"Using empty reader: no result links for statement {statement}"]
      else [line s!"Using CloudFetch reader: {c.count} result links for statement {statement}"]

/-- A cursor, and for a chunked result the provider behind it with its first stretch. -/
structure Opened where
  cursor : Cursor
  provider : Option (Provider.Setup × Provider.Move)

/-- Open chunks with a provider; an empty list of chunks needs no permission. -/
def startChunks (config : FetchConfig) (resolverMethod : Method) (m : Manifest)
    (schema : Option Schema) : Except ConfigFault Opened :=
  if !config.enabled && !m.isEmpty then .error .chunksDisabled
  else
    (Provider.create m config resolverMethod).map fun p => ⟨{ source := .chunks, schema }, some p⟩

/-- Open a result. -/
def start (d : Payload.Decoders) (config : FetchConfig) (resolverMethod : Method) :
    Plan → Except FetchError Opened
  | .inline codec format bytes schema =>
    (InlineResult.ofPayload d codec format bytes).map fun r =>
      ⟨{ source := .inline r, schema := schema.or r.schema }, none⟩
  | .empty schema => .ok ⟨{ source := .empty, schema }, none⟩
  | .chunks m schema =>
    match startChunks config resolverMethod m schema with
    | .error fault => .error (.invalidConfig fault)
    | .ok opened => .ok opened

/-- What the log says when a result is opened, apart from what its provider says. -/
def startLog (d : Payload.Decoders) : Plan → List Log.Entry
  | .inline codec format bytes _ => InlineResult.payloadLog d codec format bytes
  | _ => []

end Plan

end ResultChunks.Reader
