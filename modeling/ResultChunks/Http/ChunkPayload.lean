import ResultChunks.Http.Client
import ResultChunks.Payload.Decode
import ResultChunks.Provider.State

/-!
# Downloading payloads

A link carries its own credentials, in its address or in the fields it asks for, so the request does
not show the token. The body is decoded as the result's codec and format say.
-/

namespace ResultChunks.Http.ChunkPayload

/-- The request for the payload behind a link. -/
def request (link : Link) : Except FetchError Request :=
  let blame (reason : String) : FetchError :=
    .request s!"Invalid download link for chunk {link.chunkIndex}: {reason}"
  match Url.parse link.url with
  | .error fault => .error (blame fault.message)
  | .ok url =>
    match link.headers.mapM fun (name, value) => HeaderField.ofTexts? name value with
    | none => .error (blame "a header field cannot be sent")
    | some fields => .ok ⟨.get, url, fields⟩

/-- The chunk in an answer. -/
def readAnswer (d : Payload.Decoders) (codec : Codec) (format : Format) (link : Link)
    (r : Response) : Except FetchError Provider.Download := do
  let bytes ← Client.wholeBody s!"Failed to read body of chunk {link.chunkIndex}" r
  let batches ← Payload.decode d codec format bytes
  .ok ⟨batches, bytes.length⟩

/-- Download the payload behind a link. -/
def fetch (d : Payload.Decoders) (network : Network) (codec : Codec) (format : Format)
    (link : Link) : Except FetchError Provider.Download := do
  let r ← request link
  let response ← Client.send network r
  readAnswer d codec format link response

/-- What the log says about a download, apart from its speed. -/
def fetchLog (d : Payload.Decoders) (network : Network) (codec : Codec) (format : Format)
    (link : Link) : List Log.Entry :=
  let started : Log.Entry := ⟨.debug, .download,
    s!"Downloading chunk {link.chunkIndex} ({link.byteCount} bytes expected)"⟩
  match request link with
  | .error _ => [started]
  | .ok r =>
    let sent := started :: Client.sendLog network r
    match fetch d network codec format link with
    | .error _ => sent
    | .ok read =>
      let surprise : List Log.Entry :=
        if (read.rowCount : Int) = link.rowCount then []
        else [⟨.warn, .download, s!"Chunk {link.chunkIndex} decoded {read.rowCount} rows but its " ++
          s!"link declares {link.rowCount}"⟩]
      sent ++ surprise ++ [⟨.debug, .download, s!"Parsed chunk {link.chunkIndex}: " ++
        s!"{read.batches.length} batches, {read.rowCount} total rows"⟩]

end ResultChunks.Http.ChunkPayload
