import ResultChunks.Retry.Policy

/-!
# Configuration

The parts of a session's configuration, with their defaults: how results are fetched, how the
server is reached, and where the log goes.
-/

namespace ResultChunks

/-- How chunks are fetched. -/
structure FetchConfig where
  /-- The most chunks that are downloading or held in memory at a time. -/
  maxParallel : Nat := 16
  /-- Seconds before its expiration from which a link counts as expired. -/
  expiryBuffer : Int := 30
  /-- How long a consumer waits for a chunk before it says so in the log. -/
  readyTimeout : Duration := .ofSecs 30
  /-- Downloads slower than this many megabytes a second are noted. -/
  speedThreshold : Binary64 := ⟨0x3fb999999999999a⟩
  /-- Results that come in chunks may be read. -/
  enabled : Bool := true
  retry : RetryPolicy := {}
deriving DecidableEq, Repr, Inhabited

/-- At least one chunk may be held, links never count as fresh after they expired, and the retry
policy is in order. -/
def FetchConfig.validate (c : FetchConfig) : Except ConfigFault Unit :=
  if c.maxParallel = 0 then .error .noParallelism
  else if c.expiryBuffer < 0 then .error .negativeExpiryBuffer
  else c.retry.validate

/-- How the server is reached. -/
structure HttpConfig where
  connectTimeout : Duration := .ofSecs 30
  readTimeout : Duration := .ofSecs 60
  maxConnectionsPerHost : Nat := 100
  userAgent : String := "DatabricksCloudFetchRust/0.1.0"
  proxy : Option String := none
deriving DecidableEq, Repr, Inhabited

/-- Where the log goes, and how much of it. -/
structure LogConfig where
  level : Option String := none
  file : Option String := none
deriving DecidableEq, Repr, Inhabited

/-- The configuration of a session. -/
structure Options where
  fetch : FetchConfig := {}
  http : HttpConfig := {}
  log : LogConfig := {}
deriving DecidableEq, Repr, Inhabited

end ResultChunks
