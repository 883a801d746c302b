import ResultChunks.Link
import ResultChunks.Statement.Document
import ResultChunks.Time.Rfc3339

/-!
# Links of the statement interface

A written link becomes a download link when its expiration is a timestamp. An answer to a request
for links names the chunk to go on with, or leaves that to its first link.
-/

namespace ResultChunks

namespace Statement

/-- The download link that a written link stands for, by a reader of timestamps. -/
def ExternalLink.toLink (l : ExternalLink) (dateOf : String → Option Timestamp) :
    Except ManifestFault Link :=
  match dateOf l.expiration with
  | none => .error (.badExpiration l.expiration)
  | some expiration => .ok
    { url := l.externalLink, chunkIndex := l.chunkIndex, rowOffset := l.rowOffset
      rowCount := l.rowCount, byteCount := l.byteCount, expiration
      headers := l.headers.getD [], nextChunk := l.nextChunkIndex }

/-- Links, and the chunk to go on with if more are to come. -/
structure LinkPage where
  links : List Link
  nextChunk : Option Int
deriving DecidableEq, Repr, Inhabited

namespace LinkPage

/-- The page after the last one. -/
def endOfStream : LinkPage := ⟨[], none⟩

/-- More links are to come. -/
def hasMore (p : LinkPage) : Bool := p.nextChunk.isSome

/-- The links of an answer. -/
def ofResponse (r : ChunksResponse) : Except ManifestFault LinkPage := do
  let written := r.externalLinks.getD []
  let links ← written.mapM (·.toLink Rfc3339.parse?)
  .ok ⟨links, r.nextChunkIndex.or (written.head?.bind (·.nextChunkIndex))⟩

/-- The links in the text of an answer. -/
def parse (body : String) : Except ManifestFault LinkPage :=
  match (Json.parse? body).bind ChunksResponse.ofJson? with
  | none => .error (.badChunksResponse body)
  | some r => ofResponse r

end LinkPage

end Statement

end ResultChunks
