/-!
# Log entries

Operations do not write their log; they return entries, in order. An entry has a level, the topic
it belongs to and its text. Which entries are kept is the business of a filter.
-/

namespace ResultChunks.Log

/-- How much an entry matters. -/
inductive Level where
  | error
  | warn
  | info
  | debug
  | trace
deriving DecidableEq, Repr, Inhabited

/-- The name of a level. -/
def Level.name : Level → String
  | error => "ERROR"
  | warn => "WARN"
  | info => "INFO"
  | debug => "DEBUG"
  | trace => "TRACE"

/-- How many levels matter more; a filter keeps a level when this is below its own bound. -/
def Level.rank : Level → Nat
  | error => 0
  | warn => 1
  | info => 2
  | debug => 3
  | trace => 4

/-- The part of the program that an entry speaks of. -/
inductive Topic where
  | options
  | retry
  | http
  | statementClient
  | telemetry
  | manifest
  | store
  | provider
  | links
  | download
  | inlinePayload
  | cursor
  | reader
deriving DecidableEq, Repr, Inhabited

/-- The dotted path under which filters know a topic. -/
def Topic.path : Topic → String
  | options => "databricks_cloudfetch::options"
  | retry => "databricks_cloudfetch::client::retry"
  | http => "databricks_cloudfetch::client::http"
  | statementClient => "databricks_cloudfetch::client::sea"
  | telemetry => "databricks_cloudfetch::telemetry"
  | manifest => "databricks_cloudfetch::types::manifest"
  | store => "databricks_cloudfetch::reader::cloudfetch::chunk_store"
  | provider => "databricks_cloudfetch::reader::cloudfetch::chunk_provider"
  | links => "databricks_cloudfetch::reader::cloudfetch::link_fetcher"
  | download => "databricks_cloudfetch::reader::cloudfetch::chunk_downloader"
  | inlinePayload => "databricks_cloudfetch::reader::inline::provider"
  | cursor => "databricks_cloudfetch::reader::row_cursor"
  | reader => "databricks_cloudfetch::reader"

/-- One line of the log. -/
structure Entry where
  level : Level
  topic : Topic
  text : String
deriving DecidableEq, Repr, Inhabited

end ResultChunks.Log
