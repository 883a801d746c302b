import ResultChunks.Http.Client
import ResultChunks.Statement.Links

/-!
# Asking the server for links

The links of a statement's chunks are a resource of their own: the index of a chunk is part of its
path. The request shows the token.
-/

namespace ResultChunks.Http.ChunkLinks

/-- Leave out slashes at the end. -/
def dropSlashes (host : String) : String :=
  String.ofList (host.toList.reverse.dropWhile (· == '/')).reverse

/-- The address of the links from a chunk on. -/
def address (host statement : String) (index : Int) : String :=
  s!"{dropSlashes host}/api/2.0/sql/statements/{statement}/result/chunks/{index}"

/-- The request for the links from a chunk on. -/
def request (host statement : String) (index : Int) : Except FetchError Request :=
  match Url.parse (address host statement index) with
  | .error fault => .error (.request s!"Failed to build request: {fault.message}")
  | .ok url => .ok ⟨.get, url, []⟩

/-- The links in an answer. -/
def readAnswer (r : Response) : Except FetchError Statement.LinkPage := do
  let bytes ← Client.wholeBody "Failed to read response" r
  match Statement.LinkPage.parse (Utf8.decodeLossy bytes) with
  | .error fault => .error (.invalidManifest fault)
  | .ok page => .ok page

/-- Ask for the links from a chunk on. -/
def fetch (c : Client) (network : Network) (host statement : String) (index : Int) :
    Except FetchError Statement.LinkPage := do
  let r ← request host statement index
  let response ← c.sendAuthorized network r
  readAnswer response

/-- What the log says about asking for links. -/
def fetchLog (c : Client) (network : Network) (host statement : String) (index : Int) :
    List Log.Entry :=
  let asked : Log.Entry :=
    ⟨.debug, .statementClient, s!"Getting result chunks at {address host statement index}"⟩
  match request host statement index with
  | .error _ => [asked]
  | .ok r =>
    let sent := asked :: c.sendAuthorizedLog network r
    match fetch c network host statement index with
    | .error _ => sent
    | .ok page =>
      let next := page.nextChunk.elim "None" fun n => s!"Some({n})"
      sent ++ [⟨.debug, .statementClient, s!"Chunks response: {page.links.length} links, " ++
        s!"next_chunk_index={next}, has_more={page.hasMore}"⟩]

end ResultChunks.Http.ChunkLinks
