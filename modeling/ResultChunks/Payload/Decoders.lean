import ResultChunks.Arrow.Stream
import ResultChunks.Lz4.Frame

/-!
# Readers of foreign formats

LZ4 frames and Arrow streams are formats of others, with readers of their own. What decodes a payload
only calls such readers, so they are left open: `Decoders` is any pair of them. A reader of Arrow
streams documents one thing that matters here: it knows the schema of a stream as soon as it has
opened it, and every batch that it reads has that schema.
-/

namespace ResultChunks.Payload

/-- Readers of the formats that are defined elsewhere. Each says in words what is wrong with its
input. -/
structure Decoders where
  /-- The bytes that an LZ4 frame stands for. -/
  unframe : List UInt8 → Except String (List UInt8)
  /-- Open an Arrow stream: its schema, and what comes for each batch behind it. -/
  openStream : List UInt8 → Except String (Schema × List (Except String Batch))

namespace Decoders

/-- Every batch of a stream has the schema that the stream was opened with. -/
def OneSchema (d : Decoders) : Prop :=
  ∀ bytes schema items, d.openStream bytes = .ok (schema, items) →
    ∀ b, .ok b ∈ items → b.schema = schema

/-- What comes for each batch behind the schema of a stream. -/
def streamItems (schema : Schema) (rest : List UInt8) : List (Except String Batch) :=
  match Arrow.Stream.allBatches schema rest with
  | .error fault => [.error fault.message]
  | .ok batches => batches.map .ok

/-- The readers of this library. Their streams have columns of the types with cells of their own. -/
def standard : Decoders where
  unframe bytes := (Lz4.Frame.decode bytes).mapError Lz4.Fault.message
  openStream bytes :=
    match Arrow.Stream.openSchema bytes with
    | .error fault => .error fault.message
    | .ok (schema, rest) => .ok (schema, streamItems schema rest)

end Decoders

end ResultChunks.Payload
