import ResultChunks.Http.Client
import ResultChunks.Options.Setting

/-!
# Sessions

A session is what all results of one connection share: a configuration that was checked, and a
client that was made from it.
-/

namespace ResultChunks

/-- A checked configuration and its client. -/
structure Session where
  config : FetchConfig
  client : Http.Client
deriving DecidableEq, Repr, Inhabited

/-- Start a session; a fault of the configuration is found before one of the client. -/
def Session.create (o : Options) (token : String) : Except ConfigFault Session := do
  o.fetch.validate
  let client ← Http.Client.create o.http token
  .ok ⟨o.fetch, client⟩

end ResultChunks
