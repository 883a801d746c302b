import ResultChunks.Number.Shortest
import ResultChunks.Time.Duration

/-!
# What can be wrong with a configuration
-/

namespace ResultChunks

/-- Why a configuration is refused. -/
inductive ConfigFault where
  /-- An option's value cannot be read. -/
  | badValue (key value : String)
  /-- No chunk may be downloaded at all. -/
  | noParallelism
  /-- Links would count as fresh after they expired. -/
  | negativeExpiryBuffer
  /-- The jitter is no fraction between zero and one. -/
  | jitterOutOfRange (jitter : Binary64)
  /-- The first delay is longer than the longest. -/
  | baseExceedsMax (base max : Duration)
  /-- The access token is empty. -/
  | emptyToken
  /-- The authorization header cannot be sent. -/
  | unsendableToken
  /-- The proxy has no usable address. -/
  | badProxy (address : String)
  /-- The client cannot be set up. -/
  | badClient (reason : String)
  /-- Chunked results are switched off. -/
  | chunksDisabled
  /-- A fault reported in words. -/
  | reported (text : String)
deriving DecidableEq, Repr, Inhabited

/-- The wording of a fault. -/
def ConfigFault.message : ConfigFault → String
  | badValue key value => s!"invalid value '{value}' for option '{key}'"
  | noParallelism => "max_parallel_chunk_downloads must be at least 1"
  | negativeExpiryBuffer => "link_expiry_buffer_secs must not be negative"
  | jitterOutOfRange jitter => s!"retry max_jitter must be within [0, 1], got {jitter.text}"
  | baseExceedsMax base max => s!"retry base_delay {base.text} exceeds max_delay {max.text}"
  | emptyToken => "personal access token is empty"
  | unsendableToken => "Authorization header is not valid ASCII"
  | badProxy address => s!"Invalid proxy URL '{address}': not an absolute address"
  | badClient reason => s!"Failed to create HTTP client: {reason}"
  | chunksDisabled => "CloudFetch is disabled but the result is only available as external chunks"
  | reported text => text

end ResultChunks
