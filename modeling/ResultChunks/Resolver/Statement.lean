import ResultChunks.Log.Entry
import ResultChunks.Resolver.Request
import ResultChunks.Statement.Links

/-!
# Resolving links by chunk index

Each requested index is asked for once, in increasing order, unless an earlier answer of the same
call already had a link for it. A `Progress` is where a call stands between two queries; `next` says
what to do, and `accept` takes the answer to the query that was made.
-/

namespace ResultChunks.Statement.Resolver

/-- Where a call stands: the indices still to look at, and the links so far. -/
structure Progress where
  pending : List Int
  links : LinkTable
deriving DecidableEq, Repr, Inhabited

/-- What a call does next. -/
inductive Step where
  /-- Ask the server for the links from a chunk on. -/
  | ask (index : Int) (progress : Progress)
  /-- Answer the call. -/
  | answer (result : Except FetchError LinkTable)

/-- Indices in increasing order, each once. -/
def distinct (indices : List Int) : List Int := (indices.mergeSort fun a b => a ≤ b).eraseReps

/-- Where a call starts. -/
def start (requests : List LinkRequest) : Progress :=
  ⟨distinct (requests.map LinkRequest.chunkIndex), []⟩

/-- What a call does next: it asks for the first index that has no link yet. -/
def next (p : Progress) : Step :=
  match p.pending.dropWhile p.links.has with
  | [] => .answer (.ok p.links)
  | i :: rest => .ask i ⟨rest, p.links⟩

/-- Add the links of an answer; of two links for one chunk the later counts. -/
def addLinks (t : LinkTable) (links : List Link) : LinkTable :=
  links.foldl (fun t l => t.insert l.chunkIndex l) t

/-- Take the answer to a query for an index, and go on. -/
def accept (index : Int) (p : Progress) : Except FetchError LinkPage → Step
  | .error e => .answer (.error e)
  | .ok page =>
    let links := addLinks p.links page.links
    if links.has index then next ⟨p.pending, links⟩
    else .answer (.error (.invalidManifest (.noLinkReturned index)))

/-- What the log says about an answer. -/
def acceptLog (statement : String) (index : Int) : Except FetchError LinkPage → List Log.Entry
  | .error _ => []
  | .ok page => [⟨.debug, .links, s!"Resolved {page.links.length} links starting at chunk " ++
      s!"{index} for statement {statement}"⟩]

end ResultChunks.Statement.Resolver
