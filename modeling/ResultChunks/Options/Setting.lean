import ResultChunks.Number.Parse
import ResultChunks.Options.Config
import ResultChunks.Text.Blank

/-!
# Settings by name

Each setting is one place in the options, with a type of value, a rule to read such a value from
text, and a key; one setting has two keys. Options are set from pairs of texts: a pair with an
unknown key changes nothing, so that pairs meant for others may pass through, and a pair whose value
cannot be read changes nothing either and is an error. The later of two pairs for one setting
counts, and only the final configuration has to be valid.
-/

namespace ResultChunks

/-- A place in the options. -/
inductive Setting where
  | enabled
  | maxParallel
  | expiryBuffer
  | readyTimeout
  | speedThreshold
  | retryUnavailable
  | retryRateLimited
  | unavailableTimeout
  | rateLimitTimeout
  | maxRetries
  | baseDelay
  | maxDelay
  | maxJitter
  | connectTimeout
  | readTimeout
  | maxConnections
  | userAgent
  | proxy
  | logLevel
  | logFile
deriving DecidableEq, Repr, Inhabited

namespace Setting

/-- The keys, each with its setting. -/
def keys : List (String × Setting) :=
  [("databricks.cloudfetch.enabled", enabled),
   ("databricks.cloudfetch.max_parallel_downloads", maxParallel),
   ("databricks.cloudfetch.max_chunks_in_memory", maxParallel),
   ("databricks.cloudfetch.link_expiry_buffer_secs", expiryBuffer),
   ("databricks.cloudfetch.chunk_ready_timeout_ms", readyTimeout),
   ("databricks.cloudfetch.speed_threshold_mbps", speedThreshold),
   ("databricks.retry.temporarily_unavailable", retryUnavailable),
   ("databricks.retry.rate_limited", retryRateLimited),
   ("databricks.retry.temporarily_unavailable_timeout_secs", unavailableTimeout),
   ("databricks.retry.rate_limit_timeout_secs", rateLimitTimeout),
   ("databricks.retry.max_attempts_per_class", maxRetries),
   ("databricks.retry.base_delay_ms", baseDelay),
   ("databricks.retry.max_delay_ms", maxDelay),
   ("databricks.retry.max_jitter", maxJitter),
   ("databricks.http.connect_timeout_ms", connectTimeout),
   ("databricks.http.read_timeout_ms", readTimeout),
   ("databricks.http.max_connections_per_host", maxConnections),
   ("databricks.http.user_agent", userAgent),
   ("databricks.http.proxy", proxy),
   ("databricks.log_level", logLevel),
   ("databricks.log_file", logFile)]

/-- The setting with a key. -/
def ofKey? (key : String) : Option Setting := keys.lookup key

/-- The values of a setting. -/
abbrev Value : Setting → Type
  | enabled => Bool
  | maxParallel => Nat
  | expiryBuffer => Int
  | readyTimeout => Duration
  | speedThreshold => Binary64
  | retryUnavailable => Bool
  | retryRateLimited => Bool
  | unavailableTimeout => Duration
  | rateLimitTimeout => Duration
  | maxRetries => Nat
  | baseDelay => Duration
  | maxDelay => Duration
  | maxJitter => Binary64
  | connectTimeout => Duration
  | readTimeout => Duration
  | maxConnections => Nat
  | userAgent => String
  | proxy => Option String
  | logLevel => Option String
  | logFile => Option String

/-- The value at a place. -/
def get : (s : Setting) → Options → s.Value
  | enabled, o => o.fetch.enabled
  | maxParallel, o => o.fetch.maxParallel
  | expiryBuffer, o => o.fetch.expiryBuffer
  | readyTimeout, o => o.fetch.readyTimeout
  | speedThreshold, o => o.fetch.speedThreshold
  | retryUnavailable, o => o.fetch.retry.retryUnavailable
  | retryRateLimited, o => o.fetch.retry.retryRateLimited
  | unavailableTimeout, o => o.fetch.retry.unavailableTimeout
  | rateLimitTimeout, o => o.fetch.retry.rateLimitTimeout
  | maxRetries, o => o.fetch.retry.maxRetries
  | baseDelay, o => o.fetch.retry.baseDelay
  | maxDelay, o => o.fetch.retry.maxDelay
  | maxJitter, o => o.fetch.retry.maxJitter
  | connectTimeout, o => o.http.connectTimeout
  | readTimeout, o => o.http.readTimeout
  | maxConnections, o => o.http.maxConnectionsPerHost
  | userAgent, o => o.http.userAgent
  | proxy, o => o.http.proxy
  | logLevel, o => o.log.level
  | logFile, o => o.log.file

/-- Put a value at a place. -/
def put : (s : Setting) → s.Value → Options → Options
  | enabled, (v : Bool), o => { o with fetch.enabled := v }
  | maxParallel, (v : Nat), o => { o with fetch.maxParallel := v }
  | expiryBuffer, (v : Int), o => { o with fetch.expiryBuffer := v }
  | readyTimeout, (v : Duration), o => { o with fetch.readyTimeout := v }
  | speedThreshold, (v : Binary64), o => { o with fetch.speedThreshold := v }
  | retryUnavailable, (v : Bool), o => { o with fetch.retry.retryUnavailable := v }
  | retryRateLimited, (v : Bool), o => { o with fetch.retry.retryRateLimited := v }
  | unavailableTimeout, (v : Duration), o => { o with fetch.retry.unavailableTimeout := v }
  | rateLimitTimeout, (v : Duration), o => { o with fetch.retry.rateLimitTimeout := v }
  | maxRetries, (v : Nat), o => { o with fetch.retry.maxRetries := v }
  | baseDelay, (v : Duration), o => { o with fetch.retry.baseDelay := v }
  | maxDelay, (v : Duration), o => { o with fetch.retry.maxDelay := v }
  | maxJitter, (v : Binary64), o => { o with fetch.retry.maxJitter := v }
  | connectTimeout, (v : Duration), o => { o with http.connectTimeout := v }
  | readTimeout, (v : Duration), o => { o with http.readTimeout := v }
  | maxConnections, (v : Nat), o => { o with http.maxConnectionsPerHost := v }
  | userAgent, (v : String), o => { o with http.userAgent := v }
  | proxy, (v : Option String), o => { o with http.proxy := v }
  | logLevel, (v : Option String), o => { o with log.level := v }
  | logFile, (v : Option String), o => { o with log.file := v }

/-- A truth value: `true`, `1` or `yes`, `false`, `0` or `no`, in capital or small letters. -/
def readBool? (value : String) : Option Bool :=
  let word := Text.lowerAscii (Text.trim value)
  if word = "true" || word = "1" || word = "yes" then some true
  else if word = "false" || word = "0" || word = "no" then some false
  else none

/-- A whole number below a bound. -/
def readNat? (bound : Nat) (value : String) : Option Nat :=
  Text.natBelow? bound (Text.trim value).toList

/-- A count of milliseconds. -/
def readMillis? (value : String) : Option Duration := (readNat? (Nat.pow 2 64) value).map .ofMillis

/-- A count of seconds. -/
def readSecs? (value : String) : Option Duration := (readNat? (Nat.pow 2 64) value).map .ofSecs

/-- A finite decimal. -/
def readDecimal? (value : String) : Option Binary64 := Binary64.parse? (Text.trim value).toList

/-- A text without blanks at its ends; an empty one stands for none. -/
def readPresent (value : String) : Option String :=
  let s := Text.trim value
  if s.isEmpty then none else some s

/-- Read a value of a setting. -/
def parse? : (s : Setting) → String → Option s.Value
  | enabled, v => readBool? v
  | maxParallel, v => readNat? (Nat.pow 2 64) v
  | expiryBuffer, v => (readNat? (Nat.pow 2 63) v).map Int.ofNat
  | readyTimeout, v => readMillis? v
  | speedThreshold, v => readDecimal? v
  | retryUnavailable, v => readBool? v
  | retryRateLimited, v => readBool? v
  | unavailableTimeout, v => readSecs? v
  | rateLimitTimeout, v => readSecs? v
  | maxRetries, v => readNat? (Nat.pow 2 32) v
  | baseDelay, v => readMillis? v
  | maxDelay, v => readMillis? v
  | maxJitter, v => readDecimal? v
  | connectTimeout, v => readMillis? v
  | readTimeout, v => readMillis? v
  | maxConnections, v => readNat? (Nat.pow 2 64) v
  | userAgent, v => some v
  | proxy, v => some (readPresent v)
  | logLevel, v => some (some v)
  | logFile, v => some (some v)

@[simp] theorem get_put_self (s : Setting) (v : s.Value) (o : Options) :
    s.get (s.put v o) = v := by
  cases s <;> rfl

theorem get_put_of_ne {s t : Setting} (h : t ≠ s) (v : s.Value) (o : Options) :
    t.get (s.put v o) = t.get o := by
  cases s <;> cases t <;> first | rfl | exact absurd rfl h

end Setting

namespace Options

/-- Set one option from texts. -/
def set (o : Options) (key value : String) : Except ConfigFault Options :=
  match Setting.ofKey? key with
  | none => .ok o
  | some s =>
    match s.parse? value with
    | none => .error (.badValue key value)
    | some v => .ok (s.put v o)

/-- What the log says when an option is set. -/
def setLog (key : String) : List Log.Entry :=
  match Setting.ofKey? key with
  | none => [⟨.debug, .options, s!"Ignoring unknown option '{key}'"⟩]
  | some _ => []

/-- Set options one after the other, up to the first error. -/
def setAll (o : Options) : List (String × String) → Except ConfigFault Options
  | [] => .ok o
  | (key, value) :: rest => do
    let o ← o.set key value
    o.setAll rest

/-- The options that pairs of texts stand for, checked as a whole. -/
def ofPairs (pairs : List (String × String)) : Except ConfigFault Options := do
  let o ← ({} : Options).setAll pairs
  o.fetch.validate
  .ok o

/-- What the log says while options are set, up to the first error. -/
def setAllLog (o : Options) : List (String × String) → List Log.Entry
  | [] => []
  | (key, value) :: rest =>
    match o.set key value with
    | .error _ => []
    | .ok o => setLog key ++ o.setAllLog rest

end Options

end ResultChunks
