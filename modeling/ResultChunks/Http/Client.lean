import ResultChunks.Error
import ResultChunks.Http.Header
import ResultChunks.Http.Url
import ResultChunks.Log.Entry
import ResultChunks.Options.Config

/-!
# The client

A client makes one attempt per request. It is checked when it is made: the proxy has an address and
the name of the agent can be sent. The network is a function from requests to replies, so a client
can be driven by any network, also by one that is down. A status other than success is an error that
keeps the body; whatever goes wrong before there is a status is an error of the network, which may
be tried again, or of the request, which may not.
-/

namespace ResultChunks.Http

/-- A request that can be sent. -/
structure Request where
  method : Method
  url : Url
  fields : List HeaderField
deriving DecidableEq, Repr, Inhabited

/-- Why a request has no status. -/
inductive NetworkFault where
  /-- No connection came about, it broke, or time ran out. -/
  | unreachable (reason : String)
  /-- The request cannot be sent, or the answer cannot be read. -/
  | unusable (reason : String)
deriving DecidableEq, Repr, Inhabited

/-- The wording of a fault. -/
def NetworkFault.message : NetworkFault → String
  | unreachable reason => reason
  | unusable reason => reason

/-- The error of a fault, behind what was being done. -/
def NetworkFault.error (context : String) : NetworkFault → FetchError
  | unreachable reason => .transport s!"{context}: {reason}"
  | unusable reason => .request s!"{context}: {reason}"

/-- A body: the bytes that came, and the fault if it broke off. -/
structure Body where
  bytes : List UInt8
  broken : Option NetworkFault := none
deriving DecidableEq, Repr, Inhabited

/-- An answer with a status. -/
structure Response where
  status : Nat
  fields : List HeaderField
  body : Body
deriving DecidableEq, Repr, Inhabited

/-- What a network makes of a request. -/
abbrev Network := Request → Except NetworkFault Response

/-- A network without any connection. -/
def Network.down : Network := fun _ => .error (.unreachable "no connection")

/-- A client with the token that it shows to the server. -/
structure Client where
  config : HttpConfig
  token : String
deriving DecidableEq, Repr, Inhabited

namespace Client

/-- Has a proxy an address? A text without a host is read once more as the rest of an address. -/
def isProxy (address : String) : Bool :=
  match Url.parse address with
  | .ok _ => true
  | .error .noScheme | .error .noHost => (Url.parse ("http://" ++ address)).toOption.isSome
  | .error _ => false

/-- Make a client. -/
def create (config : HttpConfig) (token : String) : Except ConfigFault Client :=
  if config.proxy.any fun address => !isProxy address then
    .error (.badProxy (config.proxy.getD ""))
  else if !(Utf8.encode config.userAgent).all HeaderField.isValueByte then
    .error (.badClient "the user agent cannot be sent")
  else .ok ⟨config, token⟩

/-- The value that shows the token. -/
def authorization (c : Client) : Except ConfigFault String :=
  if c.token.isEmpty then .error .emptyToken else .ok ("Bearer " ++ c.token)

/-- A token is a secret, and a client in words does not show it. -/
def describeToken (_ : Client) : String := "PersonalAccessToken \x7b token: \"<redacted>\" \x7d"

/-- A request, with the token in it. -/
def authorize (c : Client) (r : Request) : Except ConfigFault Request := do
  let value ← c.authorization
  match HeaderField.ofTexts? "authorization" value with
  | none => .error .unsendableToken
  | some f => .ok { r with fields := f :: r.fields.filter fun g => g.name ≠ f.name }

/-- What a request is called in messages. -/
def describe (r : Request) : String := s!"{r.method.name} {r.url.redacted}"

/-- Success, or the error that an answer stands for. -/
def settle (r : Response) : Except FetchError Response :=
  if 200 ≤ r.status && r.status < 300 then .ok r
  else
    let body := if r.body.broken.isSome then "" else Utf8.decodeLossy r.body.bytes
    .error (.http r.status (HeaderField.retryAfter r.fields) body)

/-- Send a request as it is. -/
def send (network : Network) (r : Request) : Except FetchError Response :=
  let context := s!"{describe r} failed"
  if !r.url.isWeb then .error (NetworkFault.error context (.unusable "URL scheme is not allowed"))
  else
    match network r with
    | .error fault => .error (fault.error context)
    | .ok response => settle response

/-- Send a request that shows the token. -/
def sendAuthorized (c : Client) (network : Network) (r : Request) : Except FetchError Response :=
  match c.authorize r with
  | .error fault => .error (.invalidConfig fault)
  | .ok r => send network r

/-- What the log says when a request is sent. -/
def sendLog (network : Network) (r : Request) : List Log.Entry :=
  ⟨.debug, .http, s!"Executing {describe r}"⟩ ::
  match r.url.isWeb, network r with
  | true, .ok response =>
    match settle response with
    | .ok _ => []
    | .error e =>
      let wait := e.retryAfter.elim "None" fun d => s!"Some({d.text})"
      [⟨.debug, .http, s!"{describe r} returned HTTP {response.status} (retry-after {wait})"⟩]
  | _, _ => []

/-- What the log says when a request that shows the token is sent. -/
def sendAuthorizedLog (c : Client) (network : Network) (r : Request) : List Log.Entry :=
  match c.authorize r with
  | .error _ => []
  | .ok r => sendLog network r

/-- The whole body, or the error of one that broke off. -/
def wholeBody (context : String) (r : Response) : Except FetchError (List UInt8) :=
  match r.body.broken with
  | some fault => .error (fault.error context)
  | none => .ok r.body.bytes

end Client

end ResultChunks.Http
