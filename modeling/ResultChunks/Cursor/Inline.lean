import ResultChunks.Table.Batch

/-!
# Inline results

A small result comes with the answer itself. It is decoded at once, and its batches wait in order.
-/

namespace ResultChunks

/-- The batches of an inline result that were not taken yet, and the schema of the first of all. -/
structure InlineResult where
  batches : List Batch
  schema : Option Schema
deriving DecidableEq, Inhabited

namespace InlineResult

/-- A result without batches. -/
def empty : InlineResult := ⟨[], none⟩

/-- The result of some batches. -/
def ofBatches (bs : List Batch) : InlineResult := ⟨bs, bs.head?.map Batch.schema⟩

/-- Are there batches left? -/
def hasMore (r : InlineResult) : Bool := !r.batches.isEmpty

/-- Take the next batch. -/
def take (r : InlineResult) : Option Batch × InlineResult :=
  (r.batches.head?, { r with batches := r.batches.tail })

end InlineResult

end ResultChunks
