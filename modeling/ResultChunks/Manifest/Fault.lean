/-!
# What can be wrong with a manifest or a link
-/

namespace ResultChunks

/-- Why a description of chunks, or a link to one, is refused. -/
inductive ManifestFault where
  /-- The chunk at a position has another index. -/
  | notContiguous (position : Nat) (index : Int)
  /-- A chunk has a negative row or byte count. -/
  | negativeSize (index : Int)
  /-- A chunk does not start where the one before it ends. -/
  | offsetGap (index start expected : Int)
  /-- The rows of the chunks do not add up to the total. -/
  | rowTotal (rows total : Int)
  /-- A link names a chunk that is not described. -/
  | strayLink (index : Int)
  /-- Another number of chunks is announced than described. -/
  | chunkTotal (announced : Int) (described : Nat)
  /-- A link's expiration is no timestamp. -/
  | badExpiration (text : String)
  /-- A link's expiration in milliseconds has no date. -/
  | badExpiryMillis (millis rowOffset : Int)
  /-- The server left out the link that was asked for. -/
  | noLinkReturned (index : Int)
  /-- A chunk has no link after its links were resolved. -/
  | noLinkResolved (index : Int)
  /-- The answer to a request for links is no such document. -/
  | badChunksResponse (body : String)
  /-- A fault reported in words. -/
  | reported (text : String)
deriving DecidableEq, Repr, Inhabited

/-- The wording of a fault. -/
def ManifestFault.message : ManifestFault → String
  | notContiguous position index =>
    s!"chunk indices are not contiguous: expected {position}, found {index}"
  | negativeSize index => s!"chunk {index} has negative size"
  | offsetGap index start expected =>
    s!"chunk {index} starts at row {start} but previous chunks end at row {expected}"
  | rowTotal rows total => s!"chunks hold {rows} rows but total_row_count is {total}"
  | strayLink index => s!"external link for chunk {index} has no matching chunk"
  | chunkTotal announced described =>
    s!"total_chunk_count is {announced} but {described} chunks are described"
  | badExpiration text => s!"Invalid expiration timestamp: '{text}' is no timestamp"
  | badExpiryMillis millis rowOffset =>
    s!"Invalid expiry time {millis} for result link at row offset {rowOffset}"
  | noLinkReturned index => s!"server returned no link for chunk {index}"
  | noLinkResolved index => s!"no link was resolved for chunk {index}"
  | badChunksResponse body =>
    s!"Failed to parse chunks response: not a list of links - body: {body}"
  | reported text => text

end ResultChunks
