import ResultChunks.Http.ChunkLinks
import ResultChunks.Http.ChunkPayload
import ResultChunks.Json.Access
import ResultChunks.Log.Filter
import ResultChunks.Proofs.Bytes.Bits
import ResultChunks.Proofs.Chunk.Lifecycle
import ResultChunks.Proofs.Chunk.Store
import ResultChunks.Proofs.Cursor.Agreement
import ResultChunks.Proofs.Cursor.Closed
import ResultChunks.Proofs.Cursor.Course
import ResultChunks.Proofs.Cursor.Drain
import ResultChunks.Proofs.Cursor.HasNext
import ResultChunks.Proofs.Cursor.Interrupted
import ResultChunks.Proofs.Cursor.RowCount
import ResultChunks.Proofs.Cursor.Rows
import ResultChunks.Proofs.Manifest.Chunking
import ResultChunks.Proofs.Manifest.Geometry
import ResultChunks.Proofs.Manifest.Statement
import ResultChunks.Proofs.Options.Pairs
import ResultChunks.Proofs.Payload.Schema
import ResultChunks.Proofs.Provider.Abandon
import ResultChunks.Proofs.Provider.Accounted
import ResultChunks.Proofs.Provider.Accounts
import ResultChunks.Proofs.Provider.Calls
import ResultChunks.Proofs.Provider.Close
import ResultChunks.Proofs.Provider.Delivery
import ResultChunks.Proofs.Provider.Descriptors
import ResultChunks.Proofs.Provider.Failure
import ResultChunks.Proofs.Provider.HasNext
import ResultChunks.Proofs.Provider.InOrder
import ResultChunks.Proofs.Provider.Invariant
import ResultChunks.Proofs.Provider.Kept
import ResultChunks.Proofs.Provider.Leg
import ResultChunks.Proofs.Provider.LegFits
import ResultChunks.Proofs.Provider.Links
import ResultChunks.Proofs.Provider.Memory
import ResultChunks.Proofs.Provider.Origin
import ResultChunks.Proofs.Provider.Prefetch
import ResultChunks.Proofs.Provider.Quiet
import ResultChunks.Proofs.Provider.Reading
import ResultChunks.Proofs.Provider.Record
import ResultChunks.Proofs.Provider.Reports
import ResultChunks.Proofs.Provider.Run
import ResultChunks.Proofs.Provider.Scene
import ResultChunks.Proofs.Provider.Slots
import ResultChunks.Proofs.Provider.Standing
import ResultChunks.Proofs.Provider.Vouched
import ResultChunks.Proofs.Provider.World
import ResultChunks.Proofs.Rehearsal.World
import ResultChunks.Proofs.Resolver.Cache
import ResultChunks.Proofs.Resolver.Queries
import ResultChunks.Proofs.Resolver.Rpc
import ResultChunks.Proofs.Retry.Attempts
import ResultChunks.Proofs.Retry.Backoff
import ResultChunks.Proofs.Retry.Classes
import ResultChunks.Proofs.Retry.Course
import ResultChunks.Proofs.Retry.Outcome
import ResultChunks.Proofs.Retry.Sequence
import ResultChunks.Proofs.RowSet.Access
import ResultChunks.Proofs.RowSet.Canonical
import ResultChunks.Proofs.RowSet.Grammar
import ResultChunks.Proofs.RowSet.RoundTrip
import ResultChunks.Proofs.RowSet.Truncation
import ResultChunks.Reader
import ResultChunks.Rehearsal.Reading
import ResultChunks.Rehearsal.Sample
import ResultChunks.Report.Config
import ResultChunks.Report.Rehearsal
import ResultChunks.RowSet.Encode
import ResultChunks.Session
