import ResultChunks.Options.Config
import ResultChunks.Report.Value

/-!
# Configurations in reports
-/

namespace ResultChunks.Report

/-- A retry policy. -/
def retryPolicy (p : RetryPolicy) : Json := obj
  [("retry_503", .bool p.retryUnavailable), ("retry_429", .bool p.retryRateLimited),
   ("timeout_503", duration p.unavailableTimeout), ("timeout_429", duration p.rateLimitTimeout),
   ("max_attempts", num p.maxRetries), ("base_delay", duration p.baseDelay),
   ("max_delay", duration p.maxDelay), ("max_jitter", binary64 p.maxJitter)]

/-- How chunks are fetched. -/
def fetchConfig (c : FetchConfig) : Json := obj
  [("max_parallel", num c.maxParallel), ("buffer_secs", num c.expiryBuffer),
   ("ready_timeout", duration c.readyTimeout), ("speed", binary64 c.speedThreshold),
   ("enabled", .bool c.enabled), ("retry", retryPolicy c.retry)]

/-- How the server is reached. -/
def httpConfig (c : HttpConfig) : Json := obj
  [("connect_timeout", duration c.connectTimeout), ("read_timeout", duration c.readTimeout),
   ("max_connections_per_host", num c.maxConnectionsPerHost), ("user_agent", str c.userAgent),
   ("proxy", orNull str c.proxy)]

/-- The configuration of a session. -/
def options (o : Options) : Json := obj
  [("cloudfetch", fetchConfig o.fetch), ("http", httpConfig o.http),
   ("log", obj [("level", orNull str o.log.level), ("file", orNull str o.log.file)])]

end ResultChunks.Report
