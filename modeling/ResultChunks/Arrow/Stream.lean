import ResultChunks.Arrow.Column

/-!
# Arrow streams

A stream is a message with the schema and then one message per batch. The metadata of a message
comes behind its size, before which a marker of four bytes may stand. A size of zero ends the
stream; so does a message about nothing, and the end of the input where a message should start.
-/

namespace ResultChunks.Arrow.Stream

/-- The marker before the size of a message's metadata. -/
def marker : List UInt8 := [0xff, 0xff, 0xff, 0xff]

/-- Read a count of bytes, or fail. -/
def take (n : Nat) (s : List UInt8) : Except Fault (List UInt8 × List UInt8) :=
  match Bytes.split? n s with
  | some r => .ok r
  | none => .error .truncated

/-- The size that follows the first four bytes of a message, and the rest. -/
def metadataSize (first s : List UInt8) : Except Fault (Nat × List UInt8) :=
  if first = marker then (take 4 s).map fun (size, s) => (Bytes.toNat size, s)
  else .ok (Bytes.toNat first, s)

/-- The metadata of the first message, which is the schema. -/
def openSchema (s : List UInt8) : Except Fault (Schema × List UInt8) := do
  let (first, s) ← take 4 s
  let (size, s) ← metadataSize first s
  let (metadata, s) ← take size s
  match (← Message.ofMetadata metadata.toArray).head with
  | .fields schema => .ok (schema, s)
  | _ => .error .unexpectedMessage

/-- Read batches. A message is at least four bytes, so the input bounds their number. -/
def batches (schema : Schema) : Nat → List UInt8 → Except Fault (List Batch)
  | 0, _ => .ok []
  | fuel + 1, s =>
    match Bytes.split? 4 s with
    | none => .ok []
    | some (first, s) => do
      let (size, s) ← metadataSize first s
      if size = 0 then .ok []
      else do
        let (metadata, s) ← take size s
        let message ← Message.ofMetadata metadata.toArray
        match message.head with
        | .nothing => .ok []
        | .batch head =>
          if message.bodySize < 0 then .error .truncated
          else do
            let (body, s) ← take message.bodySize.toNat s
            let b ← batch schema head body.toArray
            let bs ← batches schema fuel s
            .ok (b :: bs)
        | .fields _ | .other => .error .unexpectedMessage

/-- All batches behind the schema. -/
def allBatches (schema : Schema) (s : List UInt8) : Except Fault (List Batch) :=
  batches schema (s.length + 1) s

end ResultChunks.Arrow.Stream
